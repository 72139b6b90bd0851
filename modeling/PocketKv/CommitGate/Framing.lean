import PocketKv.CommitGate.Effects

/-!
# Framing a connection's bytes
-/

namespace PocketKv.CommitGate

open Library Resp List Option

/-- The context of a connection. -/
def Proxy.ctx (P : Proxy) (k : ℕ) : Ctx := (P.ctxs.lookup k).getD {}

/-- The number of the first command. -/
def firstSeq (nextSeq : ℕ) : ℕ := if nextSeq = 0 then 1 else nextSeq

/-- The commands cut out for the connection since it is known, with their numbers. -/
def runFrames (k : ℕ) (P : Proxy) (is : List (Env × Input)) : List (Bytes × ℕ) :=
  ((is.foldl proxyStep P).ctx k).frames

/-- The bytes of the connection. -/
def Input.bytesOf (k : ℕ) : Input → Bytes
  | .record k' _ payload => if k' = k then payload else []
  | _ => []

/-- The BASELINE of the connection. -/
def Input.baselinesOf (k : ℕ) : Input → List ℕ
  | .msg (.baseline _ k' nextSeq) => if k' = k then [nextSeq] else []
  | _ => []

/-- A record of the connection is taken, its BASELINE finds room, and it is neither ignored nor forgotten. -/
def handles (k : ℕ) (P : Proxy) (i : Env × Input) : Bool :=
  match i.2 with
  | .record k' recvSeq payload =>
    k' ≠ k || P.gate.fault.isNone && (P.getCtx k).any (·.takes recvSeq payload)
  | .msg (.baseline _ k' _) => k' ≠ k || (P.getCtx k).isSome
  | .msg (.ignore _ k') | .msg (.forget _ k') => k' ≠ k
  | .msg .hello => false
  | _ => true

/-! ### What framing looks at -/

/-- What framing looks at. -/
structure Front where
  baseline : Bool
  buf : Bytes
  nextSeq : ℕ
  frames : List (Bytes × ℕ)

/-- What framing looks at in a context. -/
def Ctx.front (c : Ctx) : Front := ⟨c.baseline, c.buf, c.nextSeq, c.frames⟩

/-- The commands in the buffer are cut out. -/
def Front.frame (f : Front) : Front :=
  { f with
    buf := (pcFrameCtx f.buf).2, nextSeq := f.nextSeq + (pcFrameCtx f.buf).1.length
    frames := f.frames ++ (pcFrameCtx f.buf).1.zipIdx f.nextSeq }

lemma front_pcTryMatch (env : Env) (c : Ctx) (g : Gate) : (pcTryMatch env c g).1.front = c.front := rfl

lemma front_pcFrameOne (env : Env) (s : Ctx × Gate) (raw : Bytes) :
    (pcFrameOne env s raw).1.front =
      { s.1.front with nextSeq := s.1.nextSeq + 1, frames := s.1.frames ++ [(raw, s.1.nextSeq)] } := by
  unfold pcFrameOne
  dsimp only
  split <;> rfl

lemma front_frames (env : Env) (raws : List Bytes) (s : Ctx × Gate) :
    (raws.foldl (pcFrameOne env) s).1.front =
      { s.1.front with
        nextSeq := s.1.nextSeq + raws.length, frames := s.1.frames ++ raws.zipIdx s.1.nextSeq } := by
  induction raws generalizing s with
  | nil => simp [Ctx.front]
  | cons raw raws ih =>
    have hone := front_pcFrameOne env s raw
    have hnext : (pcFrameOne env s raw).1.nextSeq = s.1.nextSeq + 1 := congrArg Front.nextSeq hone
    have hframes : (pcFrameOne env s raw).1.frames = s.1.frames ++ [(raw, s.1.nextSeq)] := congrArg Front.frames hone
    rw [List.foldl_cons, ih, hone, hnext, hframes, length_cons, zipIdx_cons, append_assoc, Nat.add_assoc,
      Nat.add_comm 1]
    rfl

lemma front_pcFrame (env : Env) {c : Ctx} (g : Gate) (h : c.baseline = true) :
    (pcFrame env c g).1.front = c.front.frame := by
  rw [pcFrame, if_pos h]
  exact front_frames env _ _

section Contexts

variable {P : Proxy} {k : ℕ} {c : Ctx}

lemma Proxy.ctx_of_getCtx (h : P.getCtx k = some c) : P.ctx k = c := by
  rcases Proxy.getCtx_cases h with hlookup | ⟨hlookup, rfl⟩
  · simp [Proxy.ctx, hlookup]
  · simp [Proxy.ctx, hlookup]

lemma Proxy.ctx_put_self (P : Proxy) (k : ℕ) (s : Ctx × Gate) : (P.put k s).ctx k = s.1 := by
  simp [Proxy.ctx, Proxy.put]

lemma Proxy.ctx_put_ne (P : Proxy) {k' : ℕ} (h : k' ≠ k) (s : Ctx × Gate) : (P.put k' s).ctx k = P.ctx k := by
  simp [Proxy.ctx, Proxy.put, AList.lookup_insert_ne (Ne.symm h)]

lemma front_pcOnDesc (env : Env) (P : Proxy) (d : CommitDesc) (k : ℕ) :
    ((pcOnDesc env P d).ctx k).front = (P.ctx k).front := by
  have hput {c : Ctx} (hc : P.getCtx d.cookie = some c) (s : Ctx × Gate) (hs : s.1.front = c.front) :
      ((P.put d.cookie s).ctx k).front = (P.ctx k).front := by
    by_cases hk : d.cookie = k
    · subst hk
      rw [Proxy.ctx_put_self, Proxy.ctx_of_getCtx hc, hs]
    · rw [Proxy.ctx_put_ne P hk]
  have hcases := pcOnDesc_cases env P d
  generalize pcOnDesc env P d = R at hcases ⊢
  cases hcases with
  | faulty _ | full | ignored _ _ _ => rfl
  | kept hc => exact hput hc _ rfl
  | matched _ hc _ _ => exact hput hc _ rfl

lemma front_pcOnDescs (env : Env) (ds : List CommitDesc) (P : Proxy) (k : ℕ) :
    ((ds.foldl (pcOnDesc env) P).ctx k).front = (P.ctx k).front := by
  induction ds generalizing P with
  | nil => rfl
  | cons d ds ih => rw [List.foldl_cons, ih, front_pcOnDesc]

lemma front_record (env : Env) {recvSeq : ℕ} {payload : Bytes} (hfault : P.gate.fault = none)
    (hc : P.getCtx k = some c) (htakes : c.takes recvSeq payload = true) :
    ((proxyCommitOnRecord env P k recvSeq payload).ctx k).front =
      if c.baseline then Front.frame { c.front with buf := c.buf ++ payload }
      else { c.front with buf := c.buf ++ payload } := by
  simp only [Ctx.takes, Bool.and_eq_true, Bool.not_eq_true', decide_eq_true_eq] at htakes
  obtain ⟨⟨hignored, hgap⟩, hroom⟩ := htakes
  simp only [proxyCommitOnRecord, hfault, isSome_none, Bool.false_eq_true, if_false, hc, hignored, hgap]
  rw [if_neg (by omega), Proxy.ctx_put_self]
  by_cases hb : c.baseline = true
  · rw [if_pos hb, if_pos hb]
    exact front_pcFrame env _ hb
  · rw [if_neg hb, if_neg hb]
    rfl

lemma front_pcOnBaseline (env : Env) (hc : P.getCtx k = some c) (nextSeq : ℕ) :
    ((pcOnBaseline env P k nextSeq).ctx k).front = (c.rebase nextSeq).front.frame := by
  simp only [pcOnBaseline, hc]
  rw [Proxy.ctx_put_self, front_pcTryMatch]
  exact front_pcFrame env _ rfl

end Contexts

/-- The input is not about the connection. -/
def Input.Beside (k : ℕ) : Input → Prop
  | .record k' _ _ => k' ≠ k
  | .msg (.baseline _ k' _) | .msg (.ignore _ k') | .msg (.forget _ k') => k' ≠ k
  | .msg .hello => False
  | _ => True

variable {k : ℕ} {i : Env × Input}

lemma Input.Beside.front (h : i.2.Beside k) (P : Proxy) :
    ((proxyStep P i).ctx k).front = (P.ctx k).front := by
  obtain ⟨env, i⟩ := i
  cases i with
  | record k' recvSeq payload =>
    have hk : k' ≠ k := h
    simp only [proxyStep]
    have hcases := proxyCommitOnRecord_cases env P k' recvSeq payload
    generalize proxyCommitOnRecord env P k' recvSeq payload = R at hcases ⊢
    cases hcases with
    | same | fault _ => rfl
    | full _ _ | framed _ _ _ _ | matched _ _ _ _ => rw [Proxy.ctx_put_ne P hk]
  | poll buffering =>
    obtain ⟨w, f, -, -, heq⟩ := proxyCommitPoll_eq env P buffering
    simp only [proxyStep, heq]
    rfl
  | msg m =>
    have hcases := pcProcessMsg_cases env P m
    simp only [proxyStep]
    generalize pcProcessMsg env P m = R at hcases ⊢
    cases hcases with
    | hello => exact h.elim
    | baseline epoch k' nextSeq =>
      have hk : k' ≠ k := h
      unfold pcOnBaseline
      split
      · rfl
      · rw [Proxy.ctx_put_ne _ hk]
        rfl
    | same _ | resume _ | stale _ | long => rfl
    | @ignore _ k' _ _ _ _ =>
      have hk : k' ≠ k := h
      rw [Proxy.ctx_put_ne P hk]
    | @forget _ k' _ _ _ _ =>
      have hk : k' ≠ k := h
      simp only [Proxy.ctx, AList.lookup_erase_ne (Ne.symm hk)]
    | @batch _ ds _ => exact front_pcOnDescs env ds P k

/-! ### Runs -/

/-- A connection that has sent `bytes`, before its BASELINE and after one with the number `nextSeq`. -/
def Framed (bytes : Bytes) : Option ℕ → Front → Prop
  | none, f => f.baseline = false ∧ f.buf = bytes ∧ f.frames = []
  | some nextSeq, f =>
    f.baseline = true ∧ f.buf = (pcFrameCtx bytes).2 ∧
      f.nextSeq = firstSeq nextSeq + (pcFrameCtx bytes).1.length ∧
      f.frames = (pcFrameCtx bytes).1.zipIdx (firstSeq nextSeq)

lemma pcFrameCtx_append (bytes more : Bytes) :
    pcFrameCtx (bytes ++ more) = ((pcFrameCtx bytes).1 ++ (pcFrameCtx ((pcFrameCtx bytes).2 ++ more)).1,
      (pcFrameCtx ((pcFrameCtx bytes).2 ++ more)).2) :=
  Scanner.run_append pcFramer_stable bytes more

variable {based : Option ℕ} {bytes : Bytes}

section Steps

variable {P : Proxy} {c : Ctx}

lemma Framed.record (h : Framed bytes based (P.ctx k).front) (env : Env) {recvSeq : ℕ}
    {payload : Bytes} (hfault : P.gate.fault = none) (hc : P.getCtx k = some c)
    (htakes : c.takes recvSeq payload = true) :
    Framed (bytes ++ payload) based ((proxyStep P (env, .record k recvSeq payload)).ctx k).front := by
  have hfront : ((proxyStep P (env, .record k recvSeq payload)).ctx k).front = _ := front_record env hfault hc htakes
  rw [Proxy.ctx_of_getCtx hc] at h
  rw [hfront]
  cases based with
  | none =>
    obtain ⟨hbaseline, hbuf, hframes⟩ := h
    have hb : c.baseline = false := hbaseline
    rw [if_neg (by simp [hb])]
    exact ⟨hbaseline, congrArg (· ++ payload) hbuf, hframes⟩
  | some nextSeq =>
    obtain ⟨hbaseline, hbuf, hnext, hframes⟩ := h
    have hb : c.baseline = true := hbaseline
    have hb' : c.buf = (pcFrameCtx bytes).2 := hbuf
    have hn : c.nextSeq = firstSeq nextSeq + (pcFrameCtx bytes).1.length := hnext
    rw [if_pos hb, Framed, pcFrameCtx_append, ← hb']
    refine ⟨hbaseline, rfl, ?_, ?_⟩
    · show c.nextSeq + _ = _
      rw [hn, length_append, Nat.add_assoc]
    · show c.frames ++ (pcFrameCtx (c.buf ++ payload)).1.zipIdx c.nextSeq = _
      rw [show c.frames = _ from hframes, hn, ← zipIdx_append]

lemma Framed.baseline (h : Framed bytes none (P.ctx k).front) (env : Env) (hc : P.getCtx k = some c)
    (epoch nextSeq : ℕ) :
    Framed bytes (some nextSeq) ((proxyStep P (env, .msg (.baseline epoch k nextSeq))).ctx k).front := by
  have hc' : Proxy.getCtx { P with sessionEpoch := epoch } k = some c := hc
  have hfront : ((proxyStep P (env, .msg (.baseline epoch k nextSeq))).ctx k).front = _ :=
    front_pcOnBaseline env hc' nextSeq
  rw [Proxy.ctx_of_getCtx hc] at h
  obtain ⟨hbaseline, hbuf, hframes⟩ := h
  have hb : c.baseline = false := hbaseline
  have hrebase : (c.rebase nextSeq).buf = bytes := by
    simp only [Ctx.rebase, hb, Bool.false_eq_true, if_false]
    exact hbuf
  rw [hfront]
  refine ⟨rfl, congrArg (fun xs => (pcFrameCtx xs).2) hrebase, ?_, ?_⟩
  · show firstSeq nextSeq + (pcFrameCtx (c.rebase nextSeq).buf).1.length = _
    rw [hrebase]
  · show c.frames ++ (pcFrameCtx (c.rebase nextSeq).buf).1.zipIdx (firstSeq nextSeq) = _
    rw [show c.frames = [] from hframes, hrebase, nil_append]

end Steps

lemma Framed.step {P : Proxy}
    (h : Framed bytes based (P.ctx k).front) (hi : handles k P i = true)
    (hfirst : based = none ∨ i.2.baselinesOf k = []) :
    Framed (bytes ++ i.2.bytesOf k) (based.or (i.2.baselinesOf k).head?) ((proxyStep P i).ctx k).front := by
  have hbeside (hb : i.2.Beside k) (hbytes : i.2.bytesOf k = []) (hbaselines : i.2.baselinesOf k = []) :
      Framed (bytes ++ i.2.bytesOf k) (based.or (i.2.baselinesOf k).head?) ((proxyStep P i).ctx k).front := by
    rw [hb.front P, hbytes, hbaselines, append_nil, head?_nil, or_none]
    exact h
  obtain ⟨env, i⟩ := i
  cases i with
  | poll buffering => exact hbeside trivial rfl rfl
  | record k' recvSeq payload =>
    by_cases hk : k' = k
    swap
    · exact hbeside hk (by simp [Input.bytesOf, hk]) rfl
    subst hk
    simp only [handles, ne_eq, not_true_eq_false, decide_false, Bool.false_or, Bool.and_eq_true,
      Option.isNone_iff_eq_none, Option.any_eq_true] at hi
    obtain ⟨hfault, c, hc, htakes⟩ := hi
    have hrecord := h.record env hfault hc htakes
    simpa [Input.bytesOf, Input.baselinesOf] using hrecord
  | msg m =>
    cases m with
    | hello => cases hi
    | baseline epoch k' nextSeq =>
      by_cases hk : k' = k
      swap
      · exact hbeside hk rfl (by simp [Input.baselinesOf, hk])
      subst hk
      simp only [handles, ne_eq, not_true_eq_false, decide_false, Bool.false_or, isSome_iff_exists] at hi
      obtain ⟨c, hc⟩ := hi
      obtain rfl : based = none := by
        refine hfirst.resolve_right ?_
        simp [Input.baselinesOf]
      have hbaseline := h.baseline env hc epoch nextSeq
      simpa [Input.bytesOf, Input.baselinesOf] using hbaseline
    | ignore epoch k' => exact hbeside (of_decide_eq_true (p := k' ≠ k) hi) rfl rfl
    | forget epoch k' => exact hbeside (of_decide_eq_true (p := k' ≠ k) hi) rfl rfl
    | resume epoch marker => exact hbeside trivial rfl rfl
    | batch epoch ds => exact hbeside trivial rfl rfl

/-- The bytes of the connection. -/
def bytesIn (k : ℕ) (is : List (Env × Input)) : Bytes := is.flatMap fun i => i.2.bytesOf k

/-- The BASELINEs of the connection. -/
def baselinesIn (k : ℕ) (is : List (Env × Input)) : List ℕ := is.flatMap fun i => i.2.baselinesOf k

lemma Framed.run {P : Proxy}
    (h : Framed bytes based (P.ctx k).front) {is : List (Env × Input)}
    (hrun : GuardedRun proxyStep (fun P i => handles k P i = true) P is)
    (hone : (based.toList ++ baselinesIn k is).length ≤ 1) :
    Framed (bytes ++ bytesIn k is) (based.or (baselinesIn k is).head?) ((is.foldl proxyStep P).ctx k).front := by
  induction is generalizing P bytes based with
  | nil => simpa [bytesIn, baselinesIn] using h
  | cons i is ih =>
    simp only [baselinesIn, flatMap_cons] at hone ⊢
    have hfirst : based = none ∨ i.2.baselinesOf k = [] := by
      cases based with
      | none => exact .inl rfl
      | some n =>
        refine .inr (length_eq_zero_iff.mp ?_)
        simp only [toList_some, length_append, length_singleton] at hone
        omega
    have hlater : ((based.or (i.2.baselinesOf k).head?).toList ++ baselinesIn k is).length ≤ 1 := by
      refine le_trans ?_ hone
      rw [length_append, ← append_assoc, length_append]
      refine Nat.add_le_add_right ?_ _
      rcases hfirst with rfl | hnil
      · cases i.2.baselinesOf k <;> simp
      · simp [hnil]
    have hrest := ih (h.step hrun.1 hfirst) hrun.2 hlater
    rw [append_assoc, Option.or_assoc, ← head?_append] at hrest
    exact hrest

/-- **The cutting of a connection's bytes does not matter to the framer**, nor when the first BASELINE comes: two
runs with the same bytes for a new connection cut out the same commands with the same numbers, and leave the same
bytes. -/
theorem framing_chunk_invariant (k nextSeq : ℕ) {P P' : Proxy} (hP : P.ctxs.lookup k = none)
    (hP' : P'.ctxs.lookup k = none) {is js : List (Env × Input)}
    (hi : GuardedRun proxyStep (fun P i => handles k P i = true) P is)
    (hj : GuardedRun proxyStep (fun P i => handles k P i = true) P' js)
    (hbasei : baselinesIn k is = [nextSeq]) (hbasej : baselinesIn k js = [nextSeq])
    (hbytes : bytesIn k is = bytesIn k js) :
    runFrames k P is = runFrames k P' js ∧
      ((is.foldl proxyStep P).ctx k).buf = ((js.foldl proxyStep P').ctx k).buf ∧
      runFrames k P is = (pcFrameCtx (bytesIn k is)).1.zipIdx (firstSeq nextSeq) ∧
      ((is.foldl proxyStep P).ctx k).buf = (pcFrameCtx (bytesIn k is)).2 := by
  have hcanon {Q : Proxy} (hQ : Q.ctxs.lookup k = none) {ls : List (Env × Input)}
      (hl : GuardedRun proxyStep (fun P i => handles k P i = true) Q ls) (hbase : baselinesIn k ls = [nextSeq]) :
      ((ls.foldl proxyStep Q).ctx k).buf = (pcFrameCtx (bytesIn k ls)).2 ∧
        runFrames k Q ls = (pcFrameCtx (bytesIn k ls)).1.zipIdx (firstSeq nextSeq) := by
    have hstart : Framed [] none (Q.ctx k).front := by
      simp [Framed, Proxy.ctx, hQ, Ctx.front]
    have hend := hstart.run hl (by simp [hbase])
    rw [hbase] at hend
    obtain ⟨-, hbuf, -, hframes⟩ := hend
    exact ⟨hbuf, hframes⟩
  obtain ⟨hbufi, hframesi⟩ := hcanon hP hi hbasei
  obtain ⟨hbufj, hframesj⟩ := hcanon hP' hj hbasej
  refine ⟨?_, ?_, hframesi, hbufi⟩
  · rw [hframesi, hframesj, hbytes]
  · rw [hbufi, hbufj, hbytes]

/-- The BASELINE comes between two records, the first of which ends inside a command. -/
def cutByBaseline (env : Env) : List (Env × Input) :=
  [(env, .record 1 5 (str "*1\r\n$4\r\nPI")), (env, .msg (.baseline 0 1 3)),
    (env, .record 1 6 (str "NG\r\nGET a\n*2\r\n"))]

/-- The BASELINE comes first. -/
def afterBaseline (env : Env) : List (Env × Input) :=
  [(env, .msg (.baseline 0 1 3)), (env, .record 2 9 (str "x")),
    (env, .record 1 8 (str "*1\r\n$4\r\nPING\r\nGET a\n*2\r\n"))]

theorem framing_chunk_invariant_cut :
    let env : Env := ⟨0, fun _ => true⟩
    runFrames 1 {} (cutByBaseline env) = runFrames 1 {} (afterBaseline env) ∧
      (((cutByBaseline env).foldl proxyStep {}).ctx 1).buf = str "*2\r\n" := by
  intro env
  have hnew : ({} : Proxy).ctxs.lookup 1 = none := rfl
  have hcut : GuardedRun proxyStep (fun P i => handles 1 P i = true) {} (cutByBaseline env) := by decide +kernel
  have hafter : GuardedRun proxyStep (fun P i => handles 1 P i = true) {} (afterBaseline env) := by decide +kernel
  have h := framing_chunk_invariant 1 3 hnew hnew hcut hafter rfl rfl (by decide +kernel)
  exact ⟨h.1, h.2.2.2.trans (by decide +kernel)⟩

end PocketKv.CommitGate
