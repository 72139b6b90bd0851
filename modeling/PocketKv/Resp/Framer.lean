import PocketKv.Resp.Build

/-!
# The proxy's framer
-/

namespace PocketKv.Resp

open Library List

/-! ### The framer -/

/-- The framer's number of arguments in an array header, from 1 to 32. -/
def pcArgcOf (h : Bytes) : Option ℕ :=
  (boundedDigits 1000000 h).bind fun v => if 0 < v ∧ v ≤ 32 then some v else none

/-- The framer's length in a bulk header, at most `PC_CTX_BUF_CAP`. -/
def pcBulkLenOf (h : Bytes) : Option ℕ := boundedDigits (2 * 1024 * 1024) h

/-- The number of words in a line. -/
def pcInlineArgc (line : Bytes) : ℕ := (tokens line.length line).length

/-- The command that is cut out with an item. -/
def pcFrames (raw : Bytes) : Item → List Bytes
  | .inline line => if 0 < pcInlineArgc line then [raw] else []
  | .array _ => [raw]
  | _ => []

/-- The framer as a scanner. It keeps all that it could not decide. -/
def pcFramer : Scanner UInt8 Bytes where
  step xs := (itemStep pcArgcOf pcBulkLenOf xs).emit pcFrames xs
  keep := id

/-- `pc_frame_ctx`: the commands cut out, and the bytes that stay. -/
def pcFrameCtx (buf : Bytes) : List Bytes × Bytes := pcFramer.call buf

lemma pcFramer_stable : Stable pcFramer.step := itemStep_stable.emit pcFrames

lemma pcFrameCtx_ne_nil {buf raw : Bytes} (h : raw ∈ (pcFrameCtx buf).1) : raw ≠ [] := by
  refine Scanner.run_forall pcFramer_stable (p := (· ≠ [])) (fun {xs n es} hv e he => ?_) buf raw h
  have hn := pcFramer_stable.pos hv
  have hle := pcFramer_stable.le hv
  have hraw : e = xs.take n := by
    cases hi : itemStep pcArgcOf pcBulkLenOf xs with
    | more => simp [pcFramer, hi, Verdict.emit] at hv
    | take m is =>
      simp only [pcFramer, hi, Verdict.emit, Verdict.take.injEq] at hv
      obtain ⟨rfl, rfl⟩ := hv
      obtain ⟨i, -, hei⟩ := mem_flatMap.mp he
      cases i <;> simp_all [pcFrames]
  rw [hraw, ne_eq, ← length_eq_zero_iff, length_take]
  omega

/-- The master, with a client. -/
def clientLink : Caller where
  conn := true
  fromReplication := false
  master := true

/-- On a client's connection these get the next command sequence number. -/
def Event.raw : Event → List Bytes
  | .command _ raw => [raw]
  | _ => []

/-! ### Numerals -/

lemma boundedDigits_eq_some {limit v : ℕ} {bs : Bytes} (h : boundedDigits limit bs = some v) :
    (∀ b ∈ bs, isDigit b = true) ∧ digitsVal bs = v ∧ v ≤ limit := by
  -- The loop and the sum run side by side from any value up to the limit.
  have key {bs : Bytes} : ∀ {a : ℕ}, a ≤ limit →
      bs.foldlM (fun v b => if isDigit b then
        if v * 10 + digitVal b ≤ limit then some (v * 10 + digitVal b) else none else none) a = some v →
      (∀ b ∈ bs, isDigit b = true) ∧ bs.foldl (fun v b => v * 10 + digitVal b) a = v ∧ v ≤ limit := by
    induction bs with
    | nil =>
      intro a ha h
      cases h
      exact ⟨nofun, rfl, ha⟩
    | cons b bs ih =>
      intro a _ h
      simp only [foldlM_cons, Option.bind_eq_bind, Option.bind_eq_some_iff, Option.ite_none_right_eq_some,
        Option.some.injEq] at h
      obtain ⟨u, ⟨hd, hu, rfl⟩, h⟩ := h
      obtain ⟨hall, hval⟩ := ih hu h
      exact ⟨forall_mem_cons.mpr ⟨hd, hall⟩, hval⟩
  exact key (Nat.zero_le _) h

lemma cDigits_of_bounded {limit w v : ℕ} {bs : Bytes} (hw : 2 * limit < 2 ^ w)
    (h : boundedDigits limit bs = some v) : cDigits w bs = some (v : ℤ) := by
  obtain ⟨hdigits, rfl, hle⟩ := boundedDigits_eq_some h
  exact cDigits_of_digits hdigits (by omega)

variable {h : Bytes}

lemma argcOf_of_pc {v : ℕ} (e : pcArgcOf h = some v) : argcOf h = some v := by
  simp only [pcArgcOf, Option.bind_eq_some_iff, Option.ite_none_right_eq_some, Option.some.injEq] at e
  obtain ⟨u, hu, hr, rfl⟩ := e
  have := cDigits_of_bounded (w := 32) (by decide) hu
  simp [argcOf, this, hr]

lemma bulkLenOf_of_pc {v : ℕ} (e : pcBulkLenOf h = some v) : bulkLenOf h = some v := by
  have := cDigits_of_bounded (w := 64) (by decide) e
  simp [bulkLenOf, this]

variable {f g : Bytes → Option ℕ} {ys : Bytes} {n : ℕ}

lemma reader_eq (hfg : ∀ {h v}, g h = some v → f h = some v) (e : (f h).isSome → (g h).isSome) : f h = g h := by
  cases hg : g h with
  | none =>
    rw [hg] at e
    simpa using e
  | some v => exact hfg hg

lemma tokens_eq_nil_iff {p : Bytes} (hn : p ≠ [] → n ≠ 0) : tokens n p = [] ↔ p.all isSpace = true := by
  cases n with
  | zero =>
    obtain rfl : p = [] := by
      by_contra hp
      exact hn hp rfl
    simp [tokens]
  | succ n =>
    rw [tokens, all_eq_true, ← dropWhile_eq_nil_iff]
    split <;> simp_all

/-! ### Where the parser and the framer read alike -/

/-- The bulk headers that the loop over `n` bulk strings comes to. -/
def bulkHeaders (lenOf : Bytes → Option ℕ) : ℕ → Bytes → List Bytes
  | 0, _ => []
  | n + 1, xs =>
    match readHeader xs with
    | .ok h _ =>
      h :: match readBulk lenOf xs with
        | .ok _ r => bulkHeaders lenOf n r
        | _ => []
    | _ => []

/-- The headers of an array with the bytes `t` after the `*` are accepted by the framer if the parser accepts them.
-/
def ArrayReadAlike (t : Bytes) : Prop :=
  ∀ p ∈ splitCrlf t, p.1.length < 32 →
    ((argcOf p.1).isSome → (pcArgcOf p.1).isSome) ∧
      ∀ argc ∈ argcOf p.1, ∀ g ∈ bulkHeaders bulkLenOf argc p.2, (bulkLenOf g).isSome → (pcBulkLenOf g).isSome

/-- The headers of an array, and an inline line, which to the parser ends at a NUL byte, are read alike. -/
def ReadAlike (ys : Bytes) : Prop :=
  if ys.head? = some 42 then ArrayReadAlike ys.tail
  else if ys.head? = some 43 then True
  else ∀ p ∈ splitLf ys,
    (cstr (chompCr p.1)).all isSpace = true → (chompCr p.1).all isSpace = true

instance : DecidablePred ArrayReadAlike := fun t =>
  inferInstanceAs (Decidable (∀ p ∈ splitCrlf t, _ → _ ∧ ∀ argc ∈ argcOf p.1, _))

instance : DecidablePred ReadAlike := fun ys =>
  inferInstanceAs (Decidable (if ys.head? = some 42 then ArrayReadAlike ys.tail
    else if ys.head? = some 43 then True else ∀ p ∈ splitLf ys, _ → _))

lemma readBulks_congr {xs : Bytes}
    (h : ∀ hd ∈ bulkHeaders f n xs, f hd = g hd) : readBulks f n xs = readBulks g n xs := by
  induction n generalizing xs with
  | zero => rfl
  | succ n ih =>
    have hlen : bulkLen f xs = bulkLen g xs := by
      cases hx : readHeader xs with
      | incomplete | malformed badLen rest => simp [bulkLen, hx, Read.bind]
      | ok hd r =>
        simp only [bulkHeaders, hx, forall_mem_cons] at h
        simp only [bulkLen, hx, Read.bind, h.1]
    have hbulk : readBulk f xs = readBulk g xs := congrArg (Read.bind bulkData) hlen
    rw [readBulks, readBulks, ← hbulk]
    cases hx : readBulk f xs with
    | incomplete | malformed badLen rest => rfl
    | ok arg r =>
      refine congrArg (Read.bind _) (ih fun hd hmem => h hd ?_)
      cases hheader : readHeader xs with
      | incomplete | malformed badLen rest => simp [readBulk, bulkLen, hheader, Read.bind] at hx
      | ok hd' r' =>
        simp only [bulkHeaders, hheader, hx]
        exact .tail _ hmem

/-- The parser's commands for an item. -/
def respFrames (cx : Caller) (raw : Bytes) (i : Item) : List Bytes :=
  (respEvents cx raw i).flatMap Event.raw

lemma respFrames_eq_pc (cx : Caller) (raw : Bytes) {i : Item}
    (h : ∀ line, i = .inline line → (cstr line).all isSpace = true → line.all isSpace = true) :
    respFrames cx raw i = pcFrames raw i := by
  have hreply (text : String) : (replyIf cx text).flatMap Event.raw = [] := by
    unfold replyIf
    split <;> rfl
  cases i with
  | plus line =>
    simp only [respFrames, respEvents, pcFrames]
    split
    · rfl
    · cases controlOf cx (splitInlineArgv line 8) <;> rfl
  | inline line =>
    have hresp := tokens_eq_nil_iff (n := 32) (p := cstr line) (by simp)
    have hpc := tokens_eq_nil_iff (n := line.length) (p := line) (by simp)
    have hsub : line.all isSpace = true → (cstr line).all isSpace = true := by
      simp only [all_eq_true]
      exact fun hall x hx => hall x ((takeWhile_sublist _).subset hx)
    have hiff : splitInlineArgv line 32 = [] ↔ ¬ 0 < pcInlineArgc line := by
      rw [splitInlineArgv, hresp, pcInlineArgc, length_pos_iff, not_not, hpc]
      exact ⟨h line rfl, hsub⟩
    simp only [respFrames, respEvents, pcFrames]
    split
    · rename_i hn
      simp [hiff.mp hn]
    · rename_i hn
      simp [Event.raw, not_not.mp (mt hiff.mpr hn)]
  | longHeader => rfl
  | badArgc => exact hreply _
  | malformed badLen => cases badLen <;> simp [respFrames, respEvents, pcFrames, hreply]
  | array argv => rfl

lemma arrayStep_congr (h : ArrayReadAlike ys.tail) :
    arrayStep argcOf bulkLenOf ys = arrayStep pcArgcOf pcBulkLenOf ys := by
  unfold arrayStep
  cases hs : splitCrlf ys.tail with
  | none => rfl
  | some p =>
    obtain ⟨hd, r⟩ := p
    by_cases hl : 32 ≤ hd.length
    · simp [hl]
    obtain ⟨hargc, hlens⟩ := h (hd, r) hs (by simpa using hl)
    simp only [hl, if_false, ← reader_eq (f := argcOf) argcOf_of_pc hargc]
    cases hc : argcOf hd with
    | none => rfl
    | some argc =>
      exact congrArg (Read.verdict ys.length) (readBulks_congr fun g hg =>
        reader_eq (f := bulkLenOf) bulkLenOf_of_pc (hlens argc hc g hg))

lemma frame_congr (cx : Caller) (h : ReadAlike ys) :
    (respStep cx ys).emit (fun _ => Event.raw) ys = (pcFramer.step ys).emit (fun _ r => [r]) ys := by
  have hpc (v : Verdict Item) : (v.emit pcFrames ys).emit (fun _ r => [r]) ys = v.emit pcFrames ys := by
    simp [Verdict.emit_emit]
  -- It is enough that both see the same item, and an inline line only if it is no trap.
  suffices hitem : itemStep argcOf bulkLenOf ys = itemStep pcArgcOf pcBulkLenOf ys ∧
      ∀ n is, itemStep pcArgcOf pcBulkLenOf ys = .take n is → ∀ line, .inline line ∈ is →
        (cstr line).all isSpace = true → line.all isSpace = true by
    obtain ⟨hsame, hline⟩ := hitem
    simp only [respStep, pcFramer, hpc, Verdict.emit_emit, hsame]
    cases hv : itemStep pcArgcOf pcBulkLenOf ys with
    | more => rfl
    | take n is =>
      simp only [Verdict.emit, Verdict.take.injEq, true_and]
      refine flatMap_congr fun i hi => respFrames_eq_pc cx _ ?_
      rintro line rfl
      exact hline n is hv line hi
  unfold ReadAlike at h
  refine ⟨?_, fun n is hv line hline => ?_⟩
  · cases ys with
    | nil => rfl
    | cons b t =>
      rw [itemStep, itemStep]
      by_cases ha : b = 42
      · subst ha
        rw [arrayStep_congr h]
      · rw [if_pos ha, if_pos ha]
  · obtain ⟨i, rfl, hi⟩ := itemStep_taken hv
    obtain rfl := mem_singleton.mp hline
    cases hi with
    | inline hplus harray hs =>
      simp only [head?_cons, Option.some.injEq, harray, hplus, if_false] at h
      exact h _ hs

/-- **The master numbers the commands that the framer cuts out**, one for one, on every client stream that both read
alike wherever the parser comes, in any chunks that do not end inside a control line and any records. -/
theorem frames_agree {σ : Type*} (K : Hooks σ) (s : σ) (cs rs : List Bytes)
    (hstream : rs.flatten = cs.flatten)
    (hcut : ∀ i < cs.length, ¬ InsidePlusLine clientLink (cs.take i).flatten)
    (hread : ∀ ys ∈ (respScanner clientLink).visited cs.flatten, ReadAlike ys) :
    (recvLoop K clientLink s [] cs).2.1.flatMap Event.raw = (pcFramer.feed [] rs).1 := by
  have hout : OutsideLoading K clientLink s ((respScanner clientLink).run cs.flatten).1 :=
    fun hf => absurd hf (by decide)
  have hmaster : (recvLoop K clientLink s [] cs).2.1 =
      ((respScanner clientLink).run cs.flatten).1 := by
    rw [recvLoop_whole hout hcut]
    rfl
  have hproxy : (pcFramer.feed [] rs).1 = (pcFramer.run rs.flatten).1 := by
    by_cases hne : rs = []
    · subst hne
      rfl
    · rw [Scanner.feed_eq_call pcFramer_stable [] hne fun _ _ _ => rfl]
      rfl
  have hrun := Scanner.run_congr (S := respScanner clientLink) (respStep_stable clientLink) pcFramer_stable
    (f := Event.raw) (g := fun r => [r]) fun ys hy => frame_congr clientLink (hread ys hy)
  rw [hmaster, hproxy, hstream, hrun.1]
  simp

/-- A control line, an inline command, a blank line, a refused header and an array. -/
theorem frames_agree_mixed :
    (recvLoop idleHooks clientLink () []
        [str "+hello\r\nSET a 1\r\n\r\n*x\r\n*1\r\n$4\r\nPI", str "NG\r\n"]).2.1.flatMap Event.raw =
      (pcFramer.feed [] [str "+hello\r\nSET a 1\r\n\r\n*x\r\n*1\r\n$4\r\nPING\r\n"]).1 := by
  exact frames_agree idleHooks () _ _ (by decide) (by decide) (by decide)

/-- **A NUL byte in a header sets the two apart**: the framer skips the header and takes the two lines that follow
for commands. -/
theorem frames_differ_nul_header :
    (recvLoop idleHooks clientLink () [] [str "*1\x00\r\n$4\r\nPING\r\n"]).2.1.flatMap Event.raw ≠
      (pcFramer.feed [] [str "*1\x00\r\n$4\r\nPING\r\n"]).1 := by
  decide

end PocketKv.Resp
