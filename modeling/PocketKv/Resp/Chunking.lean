import PocketKv.Resp.Parser

/-!
# Chunked input
-/

namespace PocketKv.Resp

open Library List

variable {β γ : Type} {xs rest : Bytes} {es : List Item} {n : ℕ} {argcOf lenOf : Bytes → Option ℕ}

/-! ### Decisions are not revised -/

/-- Where a reader stops. -/
def Read.rest? : Read β → Option Bytes
  | .incomplete => none
  | .malformed _ rest => some rest
  | .ok _ rest => some rest

/-- The same with more bytes at the end. -/
def Read.append (ys : Bytes) : Read β → Read β
  | .incomplete => .incomplete
  | .malformed badLen rest => .malformed badLen (rest ++ ys)
  | .ok out rest => .ok out (rest ++ ys)

/-- A reader stops within its input, and what it finds does not change when bytes are appended. -/
structure Steady (f : Bytes → Read β) : Prop where
  stop {xs rest : Bytes} : (f xs).rest? = some rest → rest <:+ xs ∧ ∀ ys, f (xs ++ ys) = (f xs).append ys

lemma steady_ok (out : β) : Steady fun xs => .ok out xs := by
  refine ⟨?_⟩
  rintro xs rest ⟨⟩
  exact ⟨suffix_rfl, fun _ => rfl⟩

lemma Steady.bind {f : Bytes → Read β} {g : β → Bytes → Read γ} (hf : Steady f) (hg : ∀ out, Steady (g out)) :
    Steady fun xs => (f xs).bind g := by
  refine ⟨fun {xs rest} h => ?_⟩
  cases hx : f xs with
  | incomplete => simp [hx, Read.bind, Read.rest?] at h
  | malformed badLen r =>
    rw [hx] at h
    obtain ⟨hsuffix, happend⟩ := hf.stop (by rw [hx]; exact h)
    exact ⟨hsuffix, fun ys => by rw [happend, hx]; rfl⟩
  | ok out r =>
    rw [hx] at h
    obtain ⟨hsuffix, happend⟩ := hf.stop (congrArg Read.rest? hx)
    obtain ⟨hsuffix', happend'⟩ := (hg out).stop h
    exact ⟨hsuffix'.trans hsuffix, fun ys => by rw [happend, hx]; exact happend' ys⟩

lemma readHeader_steady : Steady readHeader := by
  refine ⟨fun {xs rest} h => ?_⟩
  cases xs with
  | nil => cases h
  | cons b t =>
    simp only [readHeader, cons_append] at h ⊢
    by_cases hb : b = 36
    swap
    · rw [if_neg hb] at h
      cases h
      exact ⟨suffix_rfl, fun ys => by rw [if_neg hb, if_neg hb]; rfl⟩
    rw [if_pos hb] at h
    cases hs : splitCrlf t with
    | none =>
      rw [hs] at h
      cases h
    | some p =>
      obtain ⟨hd, r⟩ := p
      simp only [hs] at h
      simp only [hb, if_true, splitCrlf_append _ hs]
      by_cases hlong : 32 ≤ hd.length
      · rw [if_pos hlong] at h
        cases h
        exact ⟨by rw [hb], fun ys => by rw [if_pos hlong, if_pos hlong]; rfl⟩
      · rw [if_neg hlong] at h
        cases h
        refine ⟨?_, fun ys => by rw [if_neg hlong, if_neg hlong]; rfl⟩
        rw [splitCrlf_eq hs]
        exact ⟨36 :: hd ++ [cr, lf], by simp⟩

lemma bulkLen_steady (lenOf : Bytes → Option ℕ) : Steady (bulkLen lenOf) := by
  refine ⟨fun {xs rest} h => ?_⟩
  unfold bulkLen at h ⊢
  cases hx : readHeader xs with
  | incomplete => simp [hx, Read.bind, Read.rest?] at h
  | malformed badLen r =>
    rw [hx] at h
    obtain ⟨hsuffix, happend⟩ := readHeader_steady.stop (by rw [hx]; exact h)
    exact ⟨hsuffix, fun ys => by rw [happend, hx]; rfl⟩
  | ok hd r =>
    obtain ⟨hsuffix, happend⟩ := readHeader_steady.stop (congrArg Read.rest? hx)
    simp only [hx, happend, Read.append, Read.bind] at h ⊢
    cases hlen : lenOf hd with
    | none =>
      rw [hlen] at h
      cases h
      exact ⟨suffix_rfl, fun ys => rfl⟩
    | some blen =>
      rw [hlen] at h
      cases h
      exact ⟨hsuffix, fun ys => rfl⟩

lemma bulkData_steady (blen : ℕ) : Steady (bulkData blen) := by
  refine ⟨fun {r rest} h => ?_⟩
  unfold bulkData at h ⊢
  split at h
  · cases h
  rename_i hr
  have hry (ys : Bytes) : ¬(r ++ ys).length < blen + 2 := by simp; omega
  -- There are two bytes after the string, so the match sees the same ones.
  obtain ⟨c, d, r', hr'⟩ : ∃ c d r', r.drop blen = c :: d :: r' := by
    match hx : r.drop blen with
    | [] => have := congrArg List.length hx; simp at this; omega
    | [_] => have := congrArg List.length hx; simp at this; omega
    | c :: d :: r' => exact ⟨c, d, r', rfl⟩
  have hsuffix := drop_suffix blen r
  simp only [hr, hry, if_false, drop_append_of_le_length (show blen ≤ r.length by omega),
    take_append_of_le_length (show blen ≤ r.length by omega), hr', cons_append] at h hsuffix ⊢
  by_cases hcd : c = 13 ∧ d = 10
  · obtain ⟨rfl, rfl⟩ := hcd
    cases h
    exact ⟨.trans ⟨[13, 10], rfl⟩ hsuffix, fun ys => rfl⟩
  · split at h
    · simp_all
    · cases h
      refine ⟨hsuffix, fun ys => ?_⟩
      split
      · simp_all
      · rfl

lemma readBulk_steady (lenOf : Bytes → Option ℕ) : Steady (readBulk lenOf) :=
  (bulkLen_steady lenOf).bind bulkData_steady

lemma readBulks_steady (lenOf : Bytes → Option ℕ) (n : ℕ) : Steady (readBulks lenOf n) := by
  induction n with
  | zero => exact steady_ok []
  | succ n ih => exact (readBulk_steady lenOf).bind fun arg => ih.bind fun args => steady_ok (arg :: args)

lemma readBulks_suffix (h : (readBulks lenOf n xs).rest? = some rest) : rest <:+ xs :=
  ((readBulks_steady lenOf n).stop h).1

lemma Read.bind_eq_ok {f : β → Bytes → Read γ} {x : Read β} {out : γ} :
    x.bind f = .ok out rest ↔ ∃ a r, x = .ok a r ∧ f a r = .ok out rest := by
  cases x <;> simp [Read.bind]

lemma bulkData_long {blen : ℕ} {r : Bytes} (h : (bulkData blen r).rest? = some rest) : blen + 2 ≤ r.length := by
  by_contra hshort
  rw [bulkData, if_pos (by omega)] at h
  cases h

lemma bulkData_ok {blen : ℕ} {r arg : Bytes} (h : bulkData blen r = .ok arg rest) :
    arg = r.take blen ∧ r.drop blen = 13 :: 10 :: rest := by
  unfold bulkData at h
  split at h
  · cases h
  split at h
  · rename_i hdrop
    cases h
    exact ⟨rfl, hdrop⟩
  · cases h

lemma readBulk_ok {arg : Bytes} (h : readBulk lenOf xs = .ok arg rest) :
    ∃ hd r, readHeader xs = .ok hd r ∧ lenOf hd = some arg.length := by
  obtain ⟨blen, r, hlen, hdata⟩ := Read.bind_eq_ok.mp h
  obtain ⟨hd, r', hheader, hlen⟩ := Read.bind_eq_ok.mp hlen
  refine ⟨hd, r', hheader, ?_⟩
  have hlong := bulkData_long (congrArg Read.rest? hdata)
  rw [(bulkData_ok hdata).1, length_take, Nat.min_eq_left (by omega)]
  split at hlen
  · cases hlen
  · cases hlen
    assumption

/-! ### What an item is -/

/-- The item at the front of `xs` with `n` bytes, as the syntaxes have it. -/
inductive Taken (argcOf lenOf : Bytes → Option ℕ) : Bytes → ℕ → Item → Prop
  | plus {t h r : Bytes} : splitCrlf (43 :: t) = some (h, r) → Taken argcOf lenOf (43 :: t) (h.length + 2) (.plus h.tail)
  | inline {b : UInt8} {t h r : Bytes} : b ≠ 43 → b ≠ 42 → splitLf (b :: t) = some (h, r) →
      Taken argcOf lenOf (b :: t) (h.length + 1) (.inline (chompCr h))
  | longHeader {t h r : Bytes} : splitCrlf t = some (h, r) → 32 ≤ h.length →
      Taken argcOf lenOf (42 :: t) (h.length + 3) .longHeader
  | badArgc {t h r : Bytes} : splitCrlf t = some (h, r) → h.length < 32 → argcOf h = none →
      Taken argcOf lenOf (42 :: t) (h.length + 3) .badArgc
  | malformed {t h r rest : Bytes} {argc : ℕ} {badLen : Bool} : splitCrlf t = some (h, r) → h.length < 32 →
      argcOf h = some argc → readBulks lenOf argc r = .malformed badLen rest →
      Taken argcOf lenOf (42 :: t) ((42 :: t).length - rest.length) (.malformed badLen)
  | array {t h r rest : Bytes} {argc : ℕ} {argv : List Bytes} : splitCrlf t = some (h, r) → h.length < 32 →
      argcOf h = some argc → readBulks lenOf argc r = .ok argv rest →
      Taken argcOf lenOf (42 :: t) ((42 :: t).length - rest.length) (.array argv)

lemma itemStep_taken (h : itemStep argcOf lenOf xs = .take n es) : ∃ i, es = [i] ∧ Taken argcOf lenOf xs n i := by
  cases xs with
  | nil => cases h
  | cons b t =>
    rw [itemStep] at h
    split at h
    · rename_i hb
      subst hb
      unfold plusStep at h
      split at h
      · cases h
      · rename_i hs
        cases h
        exact ⟨_, rfl, .plus hs⟩
    rename_i hplus
    split at h
    · rename_i harray
      unfold inlineStep at h
      split at h
      · cases h
      · rename_i hs
        cases h
        exact ⟨_, rfl, .inline hplus harray hs⟩
    rename_i hb
    obtain rfl := not_not.mp hb
    unfold arrayStep at h
    split at h
    · cases h
    rename_i hd r hs
    split at h
    · rename_i hlong
      cases h
      exact ⟨_, rfl, .longHeader hs hlong⟩
    rename_i hshort
    rw [not_le] at hshort
    split at h
    · rename_i hargc
      cases h
      exact ⟨_, rfl, .badArgc hs hshort hargc⟩
    · rename_i argc hargc
      cases hbulks : readBulks lenOf argc r with
      | incomplete => simp [hbulks, Read.verdict] at h
      | malformed badLen rest =>
        rw [hbulks] at h
        cases h
        exact ⟨_, rfl, .malformed hs hshort hargc hbulks⟩
      | ok argv rest =>
        rw [hbulks] at h
        cases h
        exact ⟨_, rfl, .array hs hshort hargc hbulks⟩

lemma Taken.step {i : Item} (h : Taken argcOf lenOf xs n i) : itemStep argcOf lenOf xs = .take n [i] := by
  cases h with
  | plus hs => simp [itemStep, plusStep, hs]
  | inline hplus harray hs => simp [itemStep, hplus, harray, inlineStep, hs]
  | longHeader hs hlong => simp [itemStep, arrayStep, hs, hlong]
  | badArgc hs hshort hargc => simp [itemStep, arrayStep, hs, hshort, hargc]
  | malformed hs hshort hargc hbulks => simp [itemStep, arrayStep, hs, hshort, hargc, hbulks, Read.verdict]
  | array hs hshort hargc hbulks => simp [itemStep, arrayStep, hs, hshort, hargc, hbulks, Read.verdict]

/-- An item takes something, and no more than there is. -/
lemma Taken.bounds {i : Item} (h : Taken argcOf lenOf xs n i) : 0 < n ∧ n ≤ xs.length := by
  have hcut {sep xs hd r : Bytes} (hs : cutAt sep xs = some (hd, r)) :
      hd.length + sep.length + r.length = xs.length := by
    rw [cutAt_eq hs, length_append, length_append]
  cases h with
  | plus hs | inline _ _ hs | longHeader hs | badArgc hs =>
    have hlen := hcut hs
    simp only [length_cons, length_nil] at hlen ⊢
    omega
  | malformed hs _ _ hread | array hs _ _ hread =>
    have hlen := hcut hs
    have hle := (readBulks_suffix (congrArg Read.rest? hread)).length_le
    simp only [length_cons] at hlen ⊢
    omega

lemma Taken.append {i : Item} (h : Taken argcOf lenOf xs n i) (ys : Bytes) : Taken argcOf lenOf (xs ++ ys) n i := by
  have hcons (b : UInt8) (t rest : Bytes) : (b :: (t ++ ys)).length - (rest ++ ys).length = (b :: t).length - rest.length := by
    simp only [length_cons, length_append]
    omega
  cases h with
  | plus hs => exact .plus (splitCrlf_append ys hs)
  | inline hplus harray hs => exact .inline hplus harray (splitLf_append ys hs)
  | longHeader hs hlong => exact .longHeader (splitCrlf_append ys hs) hlong
  | badArgc hs hshort hargc => exact .badArgc (splitCrlf_append ys hs) hshort hargc
  | @malformed _ _ _ _ argc _ hs hshort hargc hbulks =>
    rw [← hcons]
    refine .malformed (splitCrlf_append ys hs) hshort hargc ?_
    rw [((readBulks_steady lenOf argc).stop (congrArg Read.rest? hbulks)).2 ys, hbulks]
    rfl
  | @array _ _ _ _ argc _ hs hshort hargc hbulks =>
    rw [← hcons]
    refine .array (splitCrlf_append ys hs) hshort hargc ?_
    rw [((readBulks_steady lenOf argc).stop (congrArg Read.rest? hbulks)).2 ys, hbulks]
    rfl

lemma itemStep_stable : Stable (itemStep argcOf lenOf) where
  pos h := by
    obtain ⟨i, -, hi⟩ := itemStep_taken h
    exact hi.bounds.1
  le h := by
    obtain ⟨i, -, hi⟩ := itemStep_taken h
    exact hi.bounds.2
  append ys h := by
    obtain ⟨i, rfl, hi⟩ := itemStep_taken h
    exact (hi.append ys).step

lemma respStep_stable (cx : Caller) : Stable (respStep cx) :=
  itemStep_stable.emit (respEvents cx)

/-! ### The parser as a scanner -/

section Calls

variable {σ : Type*} {K : Hooks σ} {cx : Caller} {s : σ} {es fs : List Event} {cs : List Bytes}

/-- No full sync is loading while the events `es` are dealt with, one after the other. -/
def OutsideLoading (K : Hooks σ) (cx : Caller) (s : σ) (es : List Event) : Prop :=
  cx.fromReplication = true → ∀ ps, ps <+: es → K.loading (ps.foldl K.handle s) = false

lemma OutsideLoading.now (h : OutsideLoading K cx s es) (xs : Bytes) :
    (cx.fromReplication && K.loading s && !fullsyncControlLine xs) = false := by
  cases hf : cx.fromReplication with
  | false => rfl
  | true =>
    have : K.loading s = false := h hf [] List.nil_prefix
    simp [this]

lemma OutsideLoading.later (h : OutsideLoading K cx s (es ++ fs)) :
    OutsideLoading K cx (es.foldl K.handle s) fs := by
  intro hf ps hps
  have := h hf (es ++ ps) ((prefix_append_right_inj es).mpr hps)
  rwa [foldl_append] at this

lemma OutsideLoading.left (h : OutsideLoading K cx s (es ++ fs)) : OutsideLoading K cx s es :=
  fun hf ps hps => h hf ps (hps.trans (prefix_append es fs))

lemma loading_foldl (hs : K.loading s = false)
    (hes : ∀ e ∈ es, e.startsLoading = false) : K.loading (es.foldl K.handle s) = false := by
  induction es generalizing s with
  | nil => exact hs
  | cons e es ih =>
    simp only [mem_cons, forall_eq_or_imp] at hes
    refine ih ?_ hes.2
    by_contra h
    have := K.start s e (by simpa using h)
    simp [hs, hes.1] at this

lemma outsideLoading_of_no_start (hs : K.loading s = false)
    (hes : ∀ e ∈ es, e.startsLoading = false) : OutsideLoading K cx s es :=
  fun _ _ hps => loading_foldl hs fun e he => hes e (hps.subset he)

lemma parseLoop_outside {fuel : ℕ} (hf : xs.length ≤ fuel)
    (ho : OutsideLoading K cx s ((respScanner cx).run xs).1) :
    let r := parseLoop K cx fuel s xs
    (r.1, r.2.1.events, r.2.2) = (((respScanner cx).run xs).1.foldl K.handle s, (respScanner cx).call xs) := by
  induction fuel generalizing s xs with
  | zero =>
    obtain rfl : xs = [] := length_eq_zero_iff.mp (by omega)
    rfl
  | succ fuel ih =>
    cases xs with
    | nil => rfl
    | cons x xs =>
      have hnow := ho.now (x :: xs)
      simp only [parseLoop, hnow, Bool.false_eq_true, if_false]
      cases hv : respStep cx (x :: xs) with
      | more =>
        have hrun := Scanner.run_of_more (S := respScanner cx) hv
        simp only [Scanner.call, hrun, foldl_nil]
        rfl
      | take n es =>
        have hs := respStep_stable cx
        have hrun := Scanner.run_of_take (S := respScanner cx) hs hv
        have hn := hs.pos hv
        rw [hrun] at ho
        have hlen : ((x :: xs).drop n).length ≤ fuel := by
          simp only [length_drop, length_cons] at hf ⊢
          omega
        obtain ⟨hstate, hevents, hkept⟩ : _ ∧ _ ∧ _ := by
          simpa only [Prod.mk.injEq, Scanner.call] using ih hlen ho.later
        simp only [Trace.events_cons, hstate, hevents, hkept, Scanner.call, hrun, foldl_append]

lemma parseRespStream_outside {buf : Bytes}
    (ho : OutsideLoading K cx s ((respScanner cx).run buf).1) :
    parseRespStream K cx s buf =
      (((respScanner cx).run buf).1.foldl K.handle s, (respScanner cx).call buf) :=
  parseLoop_outside (by rw [parseFuel]; omega) ho

lemma recvLoop_outside {left : Bytes}
    (ho : OutsideLoading K cx s ((respScanner cx).feed left cs).1) :
    recvLoop K cx s left cs =
      (((respScanner cx).feed left cs).1.foldl K.handle s, (respScanner cx).feed left cs) := by
  induction cs generalizing s left with
  | nil => rfl
  | cons c cs ih =>
    rw [Scanner.feed_cons] at ho ⊢
    simp only [recvLoop, parseRespStream_outside ho.left]
    have ho' := ho.later
    simp only [Scanner.call] at ho' ⊢
    simp only [ih ho', foldl_append]

/-- After the last complete item there is a `+` and something more. -/
def InsidePlusLine (cx : Caller) (xs : Bytes) : Prop :=
  ((respScanner cx).run xs).2.head? = some 43 ∧ 2 ≤ ((respScanner cx).run xs).2.length

instance (cx : Caller) (xs : Bytes) : Decidable (InsidePlusLine cx xs) :=
  inferInstanceAs (Decidable (_ ∧ _))

lemma respKeep_eq_self (h : ¬ (xs.head? = some 43 ∧ 2 ≤ xs.length)) : respKeep xs = xs := by
  unfold respKeep
  split
  · rename_i b c t
    have hb : b ≠ 43 := fun hb => h (by simp [hb])
    simp [hb]
  · rfl

lemma feed_eq_call_of_cut (hne : cs ≠ [])
    (hcut : ∀ i < cs.length, ¬ InsidePlusLine cx (cs.take i).flatten) :
    (respScanner cx).feed [] cs = (respScanner cx).call cs.flatten :=
  Scanner.feed_eq_call (respStep_stable cx) [] hne fun i _ hi => respKeep_eq_self (hcut i hi)

lemma recvLoop_whole
    (hout : OutsideLoading K cx s ((respScanner cx).run cs.flatten).1)
    (hcut : ∀ i < cs.length, ¬ InsidePlusLine cx (cs.take i).flatten) :
    recvLoop K cx s [] cs = (((respScanner cx).run cs.flatten).1.foldl K.handle s,
      (respScanner cx).call cs.flatten) := by
  by_cases hne : cs = []
  · subst hne
    rfl
  · have hfeed := feed_eq_call_of_cut hne hcut
    rw [recvLoop_outside (by rw [hfeed]; exact hout), hfeed]
    rfl

/-- **A receive loop does what one call on all the bytes does**, as long as no chunk but the last ends inside a `+`
line. -/
theorem recvLoop_eq_parse (K : Hooks σ) (cx : Caller) (s : σ) (cs : List Bytes)
    (hout : OutsideLoading K cx s ((respScanner cx).run cs.flatten).1)
    (hcut : ∀ i < cs.length, ¬ InsidePlusLine cx (cs.take i).flatten) :
    recvLoop K cx s [] cs = parseRespStream K cx s cs.flatten := by
  rw [recvLoop_whole hout hcut, parseRespStream_outside hout]

end Calls

/-- A server that does nothing. -/
def idleHooks : Hooks Unit where
  loading := fun _ => false
  intercept := fun _ _ => ((), none)
  handle := fun _ _ => ()
  start := fun _ _ h => absurd h (by simp)

/-- A slave, with its master. -/
def slaveLink : Caller where
  conn := false
  fromReplication := true
  master := false

/-- Chunks may end inside an array, and between the `+` of a control line and its text. -/
theorem recvLoop_eq_parse_split_array :
    recvLoop idleHooks slaveLink () []
        [str "*2\r\n$3\r\nGE", str "T\r\n$1\r\na\r\n+", str "CONTINUE a 7\r\n"] =
      parseRespStream idleHooks slaveLink ()
        [str "*2\r\n$3\r\nGE", str "T\r\n$1\r\na\r\n+", str "CONTINUE a 7\r\n"].flatten := by
  exact recvLoop_eq_parse idleHooks slaveLink () _ (fun _ _ _ => rfl) (by decide)

/-- **A control line that arrives in two chunks is lost**: of its first part only the last byte is kept, and run as
a command with the second part. -/
theorem recvLoop_cut_plus_line :
    recvLoop idleHooks slaveLink () [] [str "+CONTINUE a", str " 7\r\n"] ≠
      parseRespStream idleHooks slaveLink () [str "+CONTINUE a", str " 7\r\n"].flatten := by
  decide

end PocketKv.Resp
