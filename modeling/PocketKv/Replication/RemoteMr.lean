import PocketKv.Resp.Numerals

/-!
# The replica's memory for a snapshot
-/

namespace PocketKv.Replication

open Resp List

/-- The errors of `kvs_fullsync.c`. The parsers have only `-EINVAL`, for which they have no result here. -/
inductive FullsyncError where
  | einval
  | estale
  | eoverflow
  deriving DecidableEq

/-- `kvs_fullsync_mr_msg_t`. -/
structure MrMsg where
  transferId : UInt64
  addr : UInt64
  rkey : UInt32
  capacity : UInt64
  deriving DecidableEq

/-- One character of `parse_u64_token`. -/
def u64Step (v : UInt64) (c : UInt8) : Option UInt64 :=
  if c < 48 ∨ 57 < c then none
  else
    let digit := (c - 48).toUInt64
    if (0xFFFFFFFFFFFFFFFF - digit) / 10 < v then none else some (v * 10 + digit)

/-- `parse_u64_token`. -/
def parseU64Token (tok : Bytes) : Option UInt64 :=
  if tok = [] ∨ tok.head? = some 45 then none else tok.foldlM u64Step 0

/-- A space or a tab. -/
def isBlank (b : UInt8) : Bool := b == 32 || b == 9

/-- The loop of `split_tokens`, for at most so many tokens. -/
def splitLoop : ℕ → Bytes → Option (List Bytes)
  | 0, p => if p.dropWhile isBlank = [] then some [] else none
  | n + 1, p =>
    match p.dropWhile isBlank with
    | [] => some []
    | b :: q =>
      (splitLoop n ((b :: q).dropWhile fun x => !isBlank x)).map (((b :: q).takeWhile fun x => !isBlank x) :: ·)

/-- `split_tokens`. -/
def splitTokens (line : Bytes) (maxToks : ℕ) : Option (List Bytes) :=
  if line.length < 2 ∨ line.drop (line.length - 2) ≠ [cr, lf] then none
  else splitLoop maxToks (line.take (line.length - 2))

/-- `cmd_matches`. -/
def cmdMatches (tok name : Bytes) : Bool := (if tok.head? = some 43 then tok.tail else tok) == name

/-- `kvs_fullsync_parse_remote_mr`. -/
def kvsFullsyncParseRemoteMr (line : Bytes) : Option MrMsg :=
  match splitTokens line 8 with
  | some [cmd, id, addr, rkey, capacity] =>
    if cmdMatches cmd (str "FULLRESYNCWR") then do
      let id ← parseU64Token id
      let addr ← parseU64Token addr
      let rkey ← parseU64Token rkey
      if 0xFFFFFFFF < rkey then none
      else do
        let capacity ← parseU64Token capacity
        some ⟨id, addr, rkey.toUInt32, capacity⟩
    else none
  | _ => none

/-- `kvs_fullsync_parse_repldone`. -/
def kvsFullsyncParseRepldone (line : Bytes) : Option (UInt64 × UInt64) :=
  match splitTokens line 4 with
  | some [cmd, id, bytes] =>
    if cmdMatches cmd (str "REPLDONE") then do
      let id ← parseU64Token id
      let bytes ← parseU64Token bytes
      some (id, bytes)
    else none
  | _ => none

/-- `kvs_fullsync_validate_remote_mr`. -/
def kvsFullsyncValidateRemoteMr (msg : MrMsg) (expectedId expectedBytes : UInt64) : Except FullsyncError Unit :=
  if msg.transferId ≠ expectedId then .error .estale
  else if msg.addr = 0 ∨ msg.rkey = 0 then .error .einval
  else if msg.capacity < expectedBytes then .error .eoverflow
  else .ok ()

/-- `kvs_fullsync_remote_addr`. -/
def kvsFullsyncRemoteAddr (base capacity offset len : UInt64) : Except FullsyncError UInt64 :=
  if capacity < offset then .error .eoverflow
  else if capacity - offset < len then .error .eoverflow
  else if 0xFFFFFFFFFFFFFFFF - base < offset then .error .eoverflow
  else .ok (base + offset)

/-! ### The documented grammar -/

/-- What stands between blanks. -/
def fields (body : Bytes) : List Bytes := (body.splitOnP isBlank).filter (· ≠ [])

/-- A numeral for a number that fits `v`. -/
structure Denotes (tok : Bytes) (v : ℕ) : Prop where
  nonempty : tok ≠ []
  digits : ∀ b ∈ tok, isDigit b = true
  value : numeral tok = v

/-- A line of a command, with or without `+`, and its arguments. -/
def CommandLine (name : Bytes) (args : List Bytes) (line : Bytes) : Prop :=
  ∃ body cmd, line = body ++ [cr, lf] ∧ fields body = cmd :: args ∧ (cmd = name ∨ cmd = 43 :: name)

/-- A `FULLRESYNCWR` line. -/
def RemoteMrLine (line : Bytes) (msg : MrMsg) : Prop :=
  ∃ id addr rkey capacity, CommandLine (str "FULLRESYNCWR") [id, addr, rkey, capacity] line ∧
    Denotes id msg.transferId.toNat ∧ Denotes addr msg.addr.toNat ∧ Denotes rkey msg.rkey.toNat ∧
    Denotes capacity msg.capacity.toNat

/-- A `REPLDONE` line. -/
def RepldoneLine (line : Bytes) (id bytes : UInt64) : Prop :=
  ∃ x y, CommandLine (str "REPLDONE") [x, y] line ∧ Denotes x id.toNat ∧ Denotes y bytes.toNat

/-! ### Tokens -/

lemma fields_cons_blank {b : UInt8} (hb : isBlank b = true) (p : Bytes) : fields (b :: p) = fields p := by
  simp [fields, splitOnP_cons_eq_if_modifyHead, hb]

lemma fields_dropWhile (p : Bytes) : fields (p.dropWhile isBlank) = fields p := by
  induction p with
  | nil => rfl
  | cons b p ih =>
    rw [dropWhile_cons]
    split
    · rename_i hb
      rw [ih, fields_cons_blank hb]
    · rfl

lemma fields_word {p : Bytes} (hword : p.takeWhile (fun x => !isBlank x) ≠ []) :
    fields p = p.takeWhile (fun x => !isBlank x) :: fields (p.dropWhile fun x => !isBlank x) := by
  have hplain : ∀ x ∈ p.takeWhile (fun x => !isBlank x), isBlank x = false :=
    fun x hx => by simpa using mem_takeWhile_imp hx
  conv_lhs => rw [← takeWhile_append_dropWhile (p := fun x => !isBlank x) (l := p)]
  cases hrest : p.dropWhile (fun x => !isBlank x) with
  | nil =>
    rw [append_nil, fields, splitOnP_eq_singleton hplain]
    simp [fields, hword]
  | cons sep rest =>
    have hsep : isBlank sep = true := by
      simpa [hrest] using head_dropWhile_not (fun x => !isBlank x) (l := p) (by simp [hrest])
    rw [fields_cons_blank hsep, fields, splitOnP_append_cons_of_forall_mem hplain sep hsep]
    simp [fields, hword]

lemma fields_round {p q : Bytes} {b : UInt8} (hskip : p.dropWhile isBlank = b :: q) :
    fields p = (b :: q).takeWhile (fun x => !isBlank x) :: fields ((b :: q).dropWhile fun x => !isBlank x) := by
  have hb : isBlank b = false := by
    simpa [hskip] using head_dropWhile_not isBlank (l := p) (by simp [hskip])
  rw [← fields_dropWhile, hskip]
  exact fields_word (by simp [hb])

lemma splitLoop_eq (n : ℕ) (p : Bytes) :
    splitLoop n p = if (fields p).length ≤ n then some (fields p) else none := by
  induction n generalizing p with
  | zero =>
    rw [splitLoop]
    cases hskip : p.dropWhile isBlank with
    | nil => rw [← fields_dropWhile, hskip]; rfl
    | cons b q => simp [fields_round hskip]
  | succ n ih =>
    rw [splitLoop]
    cases hskip : p.dropWhile isBlank with
    | nil => rw [← fields_dropWhile, hskip]; simp [fields]
    | cons b q =>
      simp only [ih, fields_round hskip, length_cons, Nat.add_le_add_iff_right]
      split <;> rfl

variable {line : Bytes} {v w : UInt64} {msg : MrMsg}

lemma splitTokens_eq_some {n : ℕ} {toks : List Bytes} (hn : toks.length ≤ n) :
    splitTokens line n = some toks ↔ ∃ body, line = body ++ [cr, lf] ∧ fields body = toks := by
  rw [splitTokens, splitLoop_eq]
  constructor
  · intro htoks
    split at htoks
    · cases htoks
    · rename_i hend
      push Not at hend
      split at htoks
      · exact ⟨_, by rw [← hend.2, take_append_drop], Option.some.inj htoks⟩
      · cases htoks
  · rintro ⟨body, rfl, rfl⟩
    simp [hn]

lemma cmdMatches_iff {tok name : Bytes} (hname : name.head? ≠ some 43) :
    cmdMatches tok name = true ↔ tok = name ∨ tok = 43 :: name := by
  rw [cmdMatches, beq_iff_eq]
  cases tok with
  | nil => simp
  | cons b tok =>
    by_cases hb : b = 43
    · subst hb
      have hplus : (43 : UInt8) :: tok ≠ name := fun h => hname (by rw [← h]; rfl)
      simp [hplus]
    · simp [hb]

/-! ### Numbers -/

lemma le_foldl_digits (ds : Bytes) (v : ℕ) : v ≤ ds.foldl (fun v b => v * 10 + digitVal b) v := by
  induction ds generalizing v with
  | nil => exact le_rfl
  | cons d ds ih =>
    have hnext := ih (v * 10 + digitVal d)
    rw [foldl_cons]
    omega

lemma u64Step_eq_some {c : UInt8} :
    u64Step v c = some w ↔ isDigit c = true ∧ v.toNat * 10 + digitVal c = w.toNat := by
  have hdigit : isDigit c = true ↔ ¬ (c < 48 ∨ 57 < c) := by simp [isDigit]
  rw [u64Step, hdigit]
  split
  · rename_i hc
    simp [hc]
  · rename_i hc
    obtain ⟨hlow, hhigh⟩ : 48 ≤ c.toNat ∧ c.toNat ≤ 57 := by
      simpa [UInt8.lt_iff_toNat_lt] using hc
    generalize hd : (c - 48).toUInt64 = digit
    have hval : digit.toNat = digitVal c := by
      rw [← hd, UInt8.toNat_toUInt64, UInt8.toNat_sub_of_le c 48 hlow]
      rfl
    have hle : digit.toNat ≤ 9 := by
      rw [hval, digitVal]
      omega
    have hsub : (0xFFFFFFFFFFFFFFFF - digit).toNat = 2 ^ 64 - 1 - digit.toNat :=
      UInt64.toNat_sub_of_le _ _ (by rw [UInt64.le_iff_toNat_le]; exact le_trans hle (by decide))
    have hten : (10 : UInt64).toNat = 10 := rfl
    have hv := v.toNat_lt
    have hw := w.toNat_lt
    simp only [UInt64.lt_iff_toNat_lt, UInt64.toNat_div, hsub, hten, ← hval, hc, not_false_eq_true, true_and]
    split
    · simp only [reduceCtorEq, false_iff]
      omega
    · rw [Option.some_inj, ← UInt64.toNat_inj, UInt64.toNat_add, UInt64.toNat_mul, hten]
      omega

lemma foldlM_u64Step {ds : Bytes} :
    ds.foldlM u64Step v = some w ↔
      (∀ b ∈ ds, isDigit b = true) ∧ ds.foldl (fun v b => v * 10 + digitVal b) v.toNat = w.toNat := by
  induction ds generalizing v with
  | nil => simp [UInt64.toNat_inj]
  | cons d ds ih =>
    rw [foldlM_cons, Option.bind_eq_bind, Option.bind_eq_some_iff, forall_mem_cons, foldl_cons]
    constructor
    · rintro ⟨u, hu, hrest⟩
      rw [u64Step_eq_some] at hu
      rw [ih, ← hu.2] at hrest
      exact ⟨⟨hu.1, hrest.1⟩, hrest.2⟩
    · rintro ⟨⟨hd, hds⟩, hvalue⟩
      -- what the digits so far denote is at most what they all denote, so it fits
      have hle := le_foldl_digits ds (v.toNat * 10 + digitVal d)
      have hfits := w.toNat_lt
      have hu : (UInt64.ofNat (v.toNat * 10 + digitVal d)).toNat = v.toNat * 10 + digitVal d :=
        UInt64.toNat_ofNat_of_lt' (show _ < 2 ^ 64 by omega)
      exact ⟨_, u64Step_eq_some.mpr ⟨hd, hu.symm⟩, ih.mpr ⟨hds, by rw [hu, hvalue]⟩⟩

lemma parseU64Token_eq_some {tok : Bytes} {v : UInt64} : parseU64Token tok = some v ↔ Denotes tok v.toNat := by
  rw [parseU64Token]
  split
  · rename_i hbad
    have : ¬ Denotes tok v.toNat := by
      rintro ⟨hne, hdigits, -⟩
      obtain hnil | hminus := hbad
      · exact hne hnil
      · exact absurd (hdigits 45 (mem_of_mem_head? hminus)) (by decide)
    simp [this]
  · rename_i hgood
    push Not at hgood
    rw [foldlM_u64Step, UInt64.toNat_zero, ← digitsVal, ← numeral_eq_digitsVal]
    exact ⟨fun h => ⟨hgood.1, h.1, h.2⟩, fun h => ⟨h.digits, h.value⟩⟩

/-! ### Lines -/

lemma commandLine_iff {name line : Bytes} {args : List Bytes} {n : ℕ} (hn : args.length < n)
    (hname : name.head? ≠ some 43) :
    CommandLine name args line ↔ ∃ cmd, splitTokens line n = some (cmd :: args) ∧ cmdMatches cmd name = true := by
  constructor
  · rintro ⟨body, cmd, hline, hfields, hcmd⟩
    exact ⟨cmd, (splitTokens_eq_some hn).mpr ⟨body, hline, hfields⟩, (cmdMatches_iff hname).mpr hcmd⟩
  · rintro ⟨cmd, htoks, hcmd⟩
    obtain ⟨body, hline, hfields⟩ := (splitTokens_eq_some hn).mp htoks
    exact ⟨body, cmd, hline, hfields, (cmdMatches_iff hname).mp hcmd⟩

lemma kvsFullsyncParseRemoteMr_eq_some : kvsFullsyncParseRemoteMr line = some msg ↔ RemoteMrLine line msg := by
  have hname : (str "FULLRESYNCWR").head? ≠ some 43 := by decide
  simp only [← UInt32.toNat_toUInt64 msg.rkey, ← parseU64Token_eq_some,
    @commandLine_iff _ _ [_, _, _, _] 8 (by simp) hname, kvsFullsyncParseRemoteMr, RemoteMrLine]
  constructor
  · intro hparse
    split at hparse
    · rename_i cmd id addr rkey capacity htoks
      split at hparse
      · rename_i hcmd
        simp only [Option.bind_eq_bind, Option.bind_eq_some_iff] at hparse
        obtain ⟨a, ha, b, hb, r, hr, hparse⟩ := hparse
        split at hparse
        · cases hparse
        · rename_i hsmall
          simp only [Option.bind_eq_some_iff, Option.some_inj] at hparse
          obtain ⟨c, hc, rfl⟩ := hparse
          have hback : r.toUInt32.toUInt64 = r := by
            rw [UInt64.lt_iff_toNat_lt] at hsmall
            rw [← UInt64.toNat_inj, UInt32.toNat_toUInt64, UInt64.toNat_toUInt32]
            exact Nat.mod_eq_of_lt (Nat.lt_succ_of_le (not_lt.mp hsmall))
          exact ⟨id, addr, rkey, capacity, ⟨cmd, htoks, hcmd⟩, ha, hb, by rw [hback, hr], hc⟩
      · cases hparse
    · cases hparse
  · rintro ⟨id, addr, rkey, capacity, ⟨cmd, htoks, hcmd⟩, hid, haddr, hrkey, hcapacity⟩
    have hsmall : ¬ 0xFFFFFFFF < msg.rkey.toUInt64 := by
      rw [UInt64.lt_iff_toNat_lt, UInt32.toNat_toUInt64, not_lt]
      exact Nat.le_of_lt_succ msg.rkey.toNat_lt
    simp [htoks, hcmd, hid, haddr, hrkey, hcapacity, hsmall]

lemma kvsFullsyncParseRepldone_eq_some {id bytes : UInt64} :
    kvsFullsyncParseRepldone line = some (id, bytes) ↔ RepldoneLine line id bytes := by
  have hname : (str "REPLDONE").head? ≠ some 43 := by decide
  simp only [← parseU64Token_eq_some, @commandLine_iff _ _ [_, _] 4 (by simp) hname, RepldoneLine,
    kvsFullsyncParseRepldone]
  constructor
  · intro hparse
    split at hparse
    · rename_i cmd x y htoks
      split at hparse
      · rename_i hcmd
        simp only [Option.bind_eq_bind, Option.bind_eq_some_iff, Option.some_inj, Prod.mk.injEq] at hparse
        obtain ⟨a, ha, b, hb, rfl, rfl⟩ := hparse
        exact ⟨x, y, ⟨cmd, htoks, hcmd⟩, ha, hb⟩
      · cases hparse
    · cases hparse
  · rintro ⟨x, y, ⟨cmd, htoks, hcmd⟩, hx, hy⟩
    simp [htoks, hcmd, hx, hy]

/-! ### Targets -/

lemma remoteAddr_eq_ok {base capacity offset len out : UInt64} :
    kvsFullsyncRemoteAddr base capacity offset len = .ok out ↔
      offset.toNat + len.toNat ≤ capacity.toNat ∧ base.toNat + offset.toNat < 2 ^ 64 ∧
        out.toNat = base.toNat + offset.toNat := by
  have hroom : (0xFFFFFFFFFFFFFFFF - base).toNat = 2 ^ 64 - 1 - base.toNat :=
    UInt64.toNat_sub_of_le _ _ (by rw [UInt64.le_iff_toNat_le]; exact Nat.le_of_lt_succ base.toNat_lt)
  have hbase := base.toNat_lt
  rw [kvsFullsyncRemoteAddr]
  split
  · rename_i hpast
    rw [UInt64.lt_iff_toNat_lt] at hpast
    simp only [reduceCtorEq, false_iff]
    omega
  · rename_i hinside
    have hrest : (capacity - offset).toNat = capacity.toNat - offset.toNat :=
      UInt64.toNat_sub_of_le _ _ (UInt64.not_lt.mp hinside)
    rw [UInt64.lt_iff_toNat_lt] at hinside
    simp only [UInt64.lt_iff_toNat_lt, hrest, hroom]
    split
    · simp only [reduceCtorEq, false_iff]
      omega
    · split
      · simp only [reduceCtorEq, false_iff]
        omega
      · rw [Except.ok.injEq, ← UInt64.toNat_inj, UInt64.toNat_add]
        omega

lemma validateRemoteMr_eq_ok {id n : UInt64} (hok : kvsFullsyncValidateRemoteMr msg id n = .ok ()) :
    n.toNat ≤ msg.capacity.toNat := by
  rw [kvsFullsyncValidateRemoteMr] at hok
  split_ifs at hok with _ _ hfits
  exact UInt64.not_lt.mp hfits

/-- **The parsers accept the documented lines, and targets are right below the end of memory.** The address of a chunk
is checked, but not its end: the chunks stay in the address space exactly when the whole snapshot does. -/
theorem fullsync_protocol (line : Bytes) (msg : MrMsg) (id n : UInt64) :
    (kvsFullsyncParseRemoteMr line = some msg ↔ RemoteMrLine line msg) ∧
    (kvsFullsyncParseRepldone line = some (id, n) ↔ RepldoneLine line id n) ∧
    (kvsFullsyncValidateRemoteMr msg id n = .ok () →
      ((∀ offset len out, offset.toNat + len.toNat ≤ n.toNat →
          kvsFullsyncRemoteAddr msg.addr msg.capacity offset len = .ok out →
          out.toNat = msg.addr.toNat + offset.toNat ∧
          out.toNat + len.toNat ≤ msg.addr.toNat + msg.capacity.toNat ∧ out.toNat + len.toNat ≤ 2 ^ 64) ↔
        msg.addr.toNat + n.toNat ≤ 2 ^ 64)) := by
  refine ⟨kvsFullsyncParseRemoteMr_eq_some, kvsFullsyncParseRepldone_eq_some, fun hok => ?_⟩
  have hfits := validateRemoteMr_eq_ok hok
  constructor
  · intro hmapped
    -- the snapshot as one chunk
    have haddr := msg.addr.toNat_lt
    exact (hmapped 0 n msg.addr (by simp) (remoteAddr_eq_ok.mpr ⟨by simpa, by simpa, by simp⟩)).2.2
  · intro hbelow offset len out hchunk haddr
    obtain ⟨hinside, -, hout⟩ := remoteAddr_eq_ok.mp haddr
    omega

/-- Ten bytes below the end of memory, for a snapshot of a hundred. -/
def mrAtTheEnd : MrMsg := ⟨7, 0xFFFFFFFFFFFFFFF6, 1, 100⟩

theorem chunk_past_the_end :
    kvsFullsyncValidateRemoteMr mrAtTheEnd 7 100 = .ok () ∧
      kvsFullsyncRemoteAddr mrAtTheEnd.addr mrAtTheEnd.capacity 0 100 = .ok mrAtTheEnd.addr ∧
      2 ^ 64 < mrAtTheEnd.addr.toNat + (100 : UInt64).toNat := by
  decide

theorem fullsync_protocol_page :
    kvsFullsyncRemoteAddr 4096 4096 1024 1024 = .ok 5120 ∧
      (5120 : UInt64).toNat + (1024 : UInt64).toNat ≤ 2 ^ 64 :=
  ⟨by decide, (((fullsync_protocol [] ⟨7, 4096, 1, 4096⟩ 7 4096).2.2 (by decide)).mpr (by decide) 1024 1024 5120
    (by decide) (by decide)).2.2⟩

end PocketKv.Replication
