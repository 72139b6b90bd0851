import PocketKv.CommitGate.Moves
import PocketKv.Library.Run
import PocketKv.Library.Table

/-!
# What a step of the proxy can do
-/

namespace PocketKv.CommitGate

open Library Relation Resp List

/-- The descriptors of writes. -/
def writesOf (ds : List CommitDesc) : List CommitDesc := ds.filter (·.write)

@[simp] lemma writesOf_nil : writesOf [] = [] := rfl

@[simp] lemma writesOf_append (ds ds' : List CommitDesc) : writesOf (ds ++ ds') = writesOf ds ++ writesOf ds' := by
  simp [writesOf]

/-- No write waits in the context. -/
def Proxy.idle (P : Proxy) (k : ℕ) : Bool :=
  (P.ctxs.lookup k).all fun c => (writesOf (c.descs.map (·.desc))).isEmpty

/-! ### Effects -/

section

variable (env : Env) (S : ℕ → Bool) (P : Proxy)

/-- One effect, with the descriptors that come in; the gate may start with the writes `S`. -/
inductive Effect : List CommitDesc → Proxy → Prop where
  | flow {k : ℕ} {c c' : Ctx} {g : Gate} (hc : P.getCtx k = some c) (hm : Moves env S (c.flow P.gate) (c'.flow g))
      (hq : P.gate.fault = none ∨ g.emitted = P.gate.emitted) : Effect [] (P.put k (c', g))
  | receive {c : Ctx} {d : CommitDesc} (hc : P.getCtx d.cookie = some c) :
      Effect [d] (P.put d.cookie ({ c with descs := c.descs ++ [⟨d, env.now⟩] }, P.gate))
  | miss {d : CommitDesc} (hd : P.gate.fault = none → d.write = false) : Effect [d] P
  | drop {k : ℕ} {c c' : Ctx} (n : ℕ) (hc : P.getCtx k = some c) (hi : P.gate.fault = none → P.idle k = true)
      (hcmds : c'.cmds = []) (hdescs : c'.descs = []) : Effect [] (P.put k (c', P.gate.setPending n))
  | forget {k : ℕ} {c : Ctx} (n : ℕ) (hc : P.ctxs.lookup k = some c) (hi : P.gate.fault = none → P.idle k = true) :
      Effect [] { P with ctxs := P.ctxs.erase k, gate := P.gate.setPending n }
  | epoch (e : ℕ) : Effect [] { P with sessionEpoch := e }
  | fault (reason : ℕ) : Effect [] (P.raise reason)

/-- Several effects. -/
inductive Effects : List CommitDesc → Proxy → Prop where
  | refl : Effects [] P
  | tail {Q Q' : Proxy} {ds ds' : List CommitDesc} (h : Effects ds Q) (e : Effect env S Q ds' Q') :
      Effects (ds ++ ds') Q'

end

section

variable {env : Env} {S : ℕ → Bool} {P Q Q' : Proxy} {ds ds' : List CommitDesc}

lemma Effect.single (e : Effect env S P ds Q) : Effects env S P ds Q := .tail .refl e

lemma Effects.trans (h : Effects env S P ds Q) (h' : Effects env S Q ds' Q') : Effects env S P (ds ++ ds') Q' := by
  induction h' with
  | refl => simpa using h
  | tail _ e ih =>
    rw [← append_assoc]
    exact ih.tail e

end

/-! ### Contexts -/

section

variable {P : Proxy} {k : ℕ} {c : Ctx}

lemma Proxy.getCtx_cases (h : P.getCtx k = some c) :
    P.ctxs.lookup k = some c ∨ P.ctxs.lookup k = none ∧ c = {} := by
  unfold Proxy.getCtx at h
  cases hl : P.ctxs.lookup k with
  | some c' =>
    simp only [hl, Option.some.injEq] at h
    exact .inl (congrArg some h)
  | none =>
    simp only [hl] at h
    split at h
    · simp at h
    · exact .inr ⟨rfl, (Option.some.inj h).symm⟩

@[simp] lemma Proxy.getCtx_put (P : Proxy) (k : ℕ) (x : Ctx × Gate) : (P.put k x).getCtx k = some x.1 := by
  simp [Proxy.getCtx, Proxy.put]

@[simp] lemma Proxy.put_put (P : Proxy) (k : ℕ) (x y : Ctx × Gate) : (P.put k x).put k y = P.put k y := by
  simp [Proxy.put]

@[simp] lemma Proxy.put_gate (P : Proxy) (k : ℕ) (x : Ctx × Gate) : (P.put k x).gate = x.2 := rfl

end

/-- The writes that are ready or wait have numbers above `n`. -/
structure Proxy.Numbered (n : ℕ) (P : Proxy) : Prop where
  gate : Flow.Numbered n ⟨[], [], P.gate⟩
  descs : ∀ e ∈ P.ctxs.entries, Flow.Numbered n (e.2.flow P.gate)

section

variable {env : Env} {S : ℕ → Bool} {n k : ℕ} {P Q : Proxy} {c : Ctx} {g : Gate} {ds : List CommitDesc}

lemma Proxy.Numbered.focus (h : P.Numbered n) (hc : P.getCtx k = some c) : (c.flow P.gate).Numbered n := by
  rcases Proxy.getCtx_cases hc with hl | ⟨-, rfl⟩
  · exact of_lookup (p := fun c : Ctx => (c.flow P.gate).Numbered n) hl h.descs
  · exact ⟨h.gate.ready, fun _ hd => absurd hd not_mem_nil, h.gate.fresh⟩

lemma Proxy.Numbered.put (h : P.Numbered n) (hc : (c.flow g).Numbered n) : (P.put k (c, g)).Numbered n := by
  refine ⟨⟨hc.ready, fun _ hd => absurd hd not_mem_nil, hc.fresh⟩, ?_⟩
  refine forall_insert (p := fun c : Ctx => (c.flow g).Numbered n) hc fun e he => ?_
  exact ⟨hc.ready, (h.descs e he).descs, hc.fresh⟩

lemma Gate.freeAll_eq (g : Gate) (cs : List Cmd) : ∃ n, g.freeAll cs = g.setPending n := by
  induction cs generalizing g with
  | nil => exact ⟨g.pendingBytes, rfl⟩
  | cons c cs ih =>
    obtain ⟨n, hn⟩ := ih (g.free c)
    exact ⟨n, hn⟩

lemma Effect.numbered (e : Effect env S P ds Q) (hds : ∀ d ∈ ds, d.write = true → n < d.global)
    (h : P.Numbered n) : Q.Numbered n := by
  cases e with
  | flow hc hm _ => exact h.put (hm.numbered (h.focus hc))
  | @receive c d hc =>
    have hnum := h.focus hc
    refine h.put ⟨hnum.ready, fun d' hd' hw => ?_, hnum.fresh⟩
    rcases mem_append.mp hd' with hd' | hd'
    · exact hnum.descs d' hd' hw
    · rw [mem_singleton.mp hd'] at hw ⊢
      exact hds d (.head _) hw
  | miss _ => exact h
  | drop m _ _ _ hdescs =>
    refine h.put ⟨h.gate.ready, fun d hd => ?_, h.gate.fresh⟩
    simp [Ctx.flow, hdescs] at hd
  | forget m _ _ =>
    exact ⟨⟨h.gate.ready, h.gate.descs, h.gate.fresh⟩,
      forall_erase (p := fun c : Ctx => (c.flow (P.gate.setPending m)).Numbered n) fun e he =>
        ⟨h.gate.ready, (h.descs e he).descs, h.gate.fresh⟩⟩
  | epoch _ => exact ⟨h.gate, h.descs⟩
  | fault _ =>
    exact ⟨⟨h.gate.ready, h.gate.descs, h.gate.fresh⟩, fun e he =>
      ⟨h.gate.ready, (h.descs e he).descs, h.gate.fresh⟩⟩

lemma Effects.numbered (e : Effects env S P ds Q) (hds : ∀ d ∈ ds, d.write = true → n < d.global)
    (h : P.Numbered n) : Q.Numbered n := by
  induction e with
  | refl => exact h
  | tail _ e ih =>
    exact e.numbered (fun d hd => hds d (mem_append_right _ hd)) (ih (fun d hd => hds d (mem_append_left _ hd)))

end

/-! ### Steps -/

/-- A record is not refused. -/
def Ctx.takes (c : Ctx) (recvSeq : ℕ) (payload : Bytes) : Bool :=
  !c.ignored && !c.lastRecv.any (recvSeq ≠ · + 1) && c.buf.length + payload.length ≤ pcCtxBufCap

/-- The commands after a record. -/
def Ctx.cmdsWith (c : Ctx) (now : ℕ) (payload : Bytes) : List Cmd :=
  c.cmds ++ if c.baseline then framed now c.nextSeq (pcFrameCtx (c.buf ++ payload)).1 else []

/-- If the gate has not started, the first write that matching makes ready is in `S`. -/
def startsIn (S : ℕ → Bool) (g : Gate) (cs : List Cmd) (ds : List Desc) : Bool :=
  g.nextGlobal ≠ 0 || (firstWrite cs ds).all S

/-- A descriptor starts the gate only with a write in `S`. -/
def descStarts (S : ℕ → Bool) (env : Env) (P : Proxy) (d : CommitDesc) : Bool :=
  P.gate.fault.isSome || (P.ctxs.lookup d.cookie).all fun c =>
    c.ignored || !c.baseline || startsIn S P.gate c.cmds (c.descs ++ [⟨d, env.now⟩])

/-- A step starts the gate only with a write in `S`. -/
def starts (S : ℕ → Bool) (P : Proxy) (i : Env × Input) : Bool :=
  P.gate.fault.isSome ||
    match i.2 with
    | .record k recvSeq payload =>
      (P.ctxs.lookup k).all fun c =>
        !c.takes recvSeq payload || startsIn S P.gate (c.cmdsWith i.1.now payload) c.descs
    | .msg (.batch epoch ds) =>
      P.epochStale epoch || GuardedRun (pcOnDesc i.1) (fun P d => descStarts S i.1 P d = true) P ds
    | _ => true

/-- The descriptor is not dropped. -/
def descKeeps (P : Proxy) (d : CommitDesc) : Bool :=
  P.gate.fault.isSome || (P.ctxs.lookup d.cookie).all fun c => !c.ignored || !d.write

/-- The input drops no descriptor. -/
def keeps (P : Proxy) (i : Env × Input) : Bool :=
  P.gate.fault.isSome ||
    match i.2 with
    | .msg (.baseline _ k _) => P.idle k
    | .msg (.ignore epoch k) => P.epochStale epoch || P.idle k
    | .msg (.forget epoch k) => P.epochStale epoch || P.idle k
    | .msg (.batch epoch ds) =>
      if P.epochStale epoch then (writesOf ds).isEmpty
      else GuardedRun (pcOnDesc i.1) (fun P d => descKeeps P d = true) P ds
    | _ => true

section

variable (env : Env) (P : Proxy)

section

variable (k recvSeq : ℕ) (payload : Bytes)

/-- The outcomes of `proxy_commit_on_record`. -/
inductive OnRecord : Proxy → Prop where
  | same : OnRecord P
  | fault (reason : ℕ) : OnRecord (P.raise reason)
  | full {c : Ctx} (hnone : P.gate.fault = none) (hc : P.getCtx k = some c) :
      OnRecord (P.put k ({ c with lastRecv := some recvSeq }, P.gate.raise 1))
  | framed {c : Ctx} (hnone : P.gate.fault = none) (hc : P.getCtx k = some c)
      (htakes : c.takes recvSeq payload = true) (hb : c.baseline = true) :
      OnRecord (P.put k (pcFrame env { c with lastRecv := some recvSeq, buf := c.buf ++ payload } P.gate))
  | matched {c : Ctx} (hnone : P.gate.fault = none) (hc : P.getCtx k = some c)
      (htakes : c.takes recvSeq payload = true) (hb : c.baseline = false) :
      OnRecord (P.put k (pcTryMatch env { c with lastRecv := some recvSeq, buf := c.buf ++ payload } P.gate))

lemma proxyCommitOnRecord_cases :
    OnRecord env P k recvSeq payload (proxyCommitOnRecord env P k recvSeq payload) := by
  unfold proxyCommitOnRecord
  split
  · exact .same
  rename_i hfault
  have hnone : P.gate.fault = none := by simpa using hfault
  split
  · exact .fault 1
  rename_i c hc
  split
  · exact .same
  rename_i hign
  split
  · exact .fault 3
  rename_i hseq
  dsimp only
  split
  · exact .full hnone hc
  rename_i hcap
  have htakes : c.takes recvSeq payload = true := by
    simp only [Ctx.takes, Bool.and_eq_true, decide_eq_true_eq]
    exact ⟨⟨by simpa using hign, by simpa using hseq⟩, by omega⟩
  split
  · rename_i hb
    exact .framed hnone hc htakes hb
  · rename_i hb
    exact .matched hnone hc htakes (by simpa using hb)

end

/-- The outcomes of `pc_on_desc`. -/
inductive OnDesc (d : CommitDesc) : Proxy → Prop where
  | faulty (hfault : P.gate.fault ≠ none) : OnDesc d P
  | full : OnDesc d (P.raise 1)
  | ignored {c : Ctx} (hnone : P.gate.fault = none) (hc : P.getCtx d.cookie = some c) (hign : c.ignored = true) :
      OnDesc d P
  | kept {c : Ctx} (hc : P.getCtx d.cookie = some c) :
      OnDesc d (P.put d.cookie ({ c with descs := c.descs ++ [⟨d, env.now⟩] }, P.gate))
  | matched {c : Ctx} (hnone : P.gate.fault = none) (hc : P.getCtx d.cookie = some c) (hign : c.ignored = false)
      (hb : c.baseline = true) :
      OnDesc d (P.put d.cookie (pcTryMatch env { c with descs := c.descs ++ [⟨d, env.now⟩] } P.gate))

lemma pcOnDesc_cases (d : CommitDesc) : OnDesc env P d (pcOnDesc env P d) := by
  unfold pcOnDesc
  split
  · rename_i hfault
    exact .faulty (Option.isSome_iff_ne_none.mp hfault)
  rename_i hfault
  have hnone : P.gate.fault = none := by simpa using hfault
  split
  · exact .full
  rename_i c hc
  split
  · rename_i hign
    exact .ignored hnone hc hign
  rename_i hign
  dsimp only
  split
  · rename_i hb
    exact .matched hnone hc (by simpa using hign) hb
  · exact .kept hc

/-- The descriptors of a message. -/
def Msg.descs : Msg → List CommitDesc
  | .batch _ ds => ds
  | _ => []

/-- The outcomes of `pc_process_msg`. -/
inductive OnMsg : Msg → Proxy → Prop where
  | hello : OnMsg .hello (proxyCommitPurge { P with sessionEpoch := 0 })
  | baseline (epoch k nextSeq : ℕ) :
      OnMsg (.baseline epoch k nextSeq) (pcOnBaseline env { P with sessionEpoch := epoch } k nextSeq)
  | same {m : Msg} (hm : m.descs = []) : OnMsg m P
  | ignore {epoch k : ℕ} {c : Ctx} (n : ℕ) (hstale : P.epochStale epoch = false) (hc : P.getCtx k = some c) :
      OnMsg (.ignore epoch k) (P.put k ({ ignored := true }, P.gate.setPending n))
  | forget {epoch k : ℕ} {c : Ctx} (n : ℕ) (hstale : P.epochStale epoch = false) (hc : P.ctxs.lookup k = some c) :
      OnMsg (.forget epoch k) { P with ctxs := P.ctxs.erase k, gate := P.gate.setPending n }
  | resume {epoch marker : ℕ} (hstale : P.epochStale epoch = false) :
      OnMsg (.resume epoch marker) { P with gate := pcOnResume env marker P.gate }
  | stale {epoch : ℕ} {ds : List CommitDesc} (hstale : P.epochStale epoch = true) : OnMsg (.batch epoch ds) P
  | long {epoch : ℕ} {ds : List CommitDesc} : OnMsg (.batch epoch ds) (P.raise 2)
  | batch {epoch : ℕ} {ds : List CommitDesc} (hstale : P.epochStale epoch = false) :
      OnMsg (.batch epoch ds) (ds.foldl (pcOnDesc env) P)

lemma pcProcessMsg_cases (m : Msg) : OnMsg env P m (pcProcessMsg env P m) := by
  cases m with
  | hello => exact .hello
  | baseline epoch k nextSeq => exact .baseline epoch k nextSeq
  | ignore epoch k =>
    simp only [pcProcessMsg, pcOnIgnore]
    split
    · exact .same rfl
    rename_i hstale
    split
    · exact .same rfl
    rename_i c hc
    obtain ⟨n, hn⟩ := Gate.freeAll_eq P.gate c.cmds
    rw [hn]
    exact .ignore n (by simpa using hstale) hc
  | forget epoch k =>
    simp only [pcProcessMsg, pcOnForget]
    split
    · exact .same rfl
    rename_i hstale
    split
    · exact .same rfl
    rename_i c hc
    obtain ⟨n, hn⟩ := Gate.freeAll_eq P.gate c.cmds
    rw [hn]
    exact .forget n (by simpa using hstale) hc
  | resume epoch marker =>
    simp only [pcProcessMsg]
    split
    · exact .same rfl
    · rename_i hstale
      exact .resume (by simpa using hstale)
  | batch epoch ds =>
    simp only [pcProcessMsg]
    split
    · exact .stale ‹_›
    rename_i hstale
    split
    · exact .long
    · exact .batch (by simpa using hstale)

/-- The buffering flag is set, a RESUME may be awaited from now on, and a fault may be raised. -/
lemma proxyCommitPoll_eq (b : Bool) : ∃ w f, (f = none → P.gate.fault = none) ∧
    (w = P.gate.waitResume ∨ P.gate.waitResume = none ∧ 0 < P.gate.recBytes) ∧
    proxyCommitPoll env b P = { P with gate := { P.gate with buffering := b, waitResume := w, fault := f } } := by
  have hset : ∃ w, (w = P.gate.waitResume ∨ P.gate.waitResume = none ∧ 0 < P.gate.recBytes) ∧
      P.gate.setBuffering env b = { P.gate with buffering := b, waitResume := w } := by
    unfold Gate.setBuffering
    split
    · rename_i hb
      exact ⟨_, .inl rfl, by rw [hb]⟩
    · refine ⟨_, ?_, rfl⟩
      split
      · rename_i hw
        simp only [Bool.and_eq_true, decide_eq_true_eq, Option.isNone_iff_eq_none] at hw
        exact .inr ⟨hw.2, hw.1.2⟩
      · exact .inl rfl
  obtain ⟨w, hw, hset⟩ := hset
  have hraise : ∃ w f, (f = none → P.gate.fault = none) ∧
      (w = P.gate.waitResume ∨ P.gate.waitResume = none ∧ 0 < P.gate.recBytes) ∧
      Proxy.raise { P with gate := P.gate.setBuffering env b } 1 =
        { P with gate := { P.gate with buffering := b, waitResume := w, fault := f } } :=
    ⟨w, _, fun hn => Gate.of_raise (g := P.gate) hn, hw, by rw [hset]; rfl⟩
  unfold proxyCommitPoll
  dsimp only
  split
  · exact hraise
  split
  · exact hraise
  split
  · exact hraise
  · exact ⟨w, _, id, hw, by rw [hset]⟩

end

section

variable {env : Env} {S : ℕ → Bool} {n : ℕ} {P : Proxy} {ds : List CommitDesc} {i : Env × Input}

lemma startsIn_iff {g : Gate} {cs : List Cmd} {ds : List Desc} :
    startsIn S g cs ds = true ↔ (g.nextGlobal = 0 → ∀ x ∈ firstWrite cs ds, S x = true) := by
  by_cases h0 : g.nextGlobal = 0 <;> simp [startsIn, h0, Option.all_eq_true]

lemma starts_any (P : Proxy) (i : Env × Input) : starts (fun _ => true) P i = true := by
  have hin (g : Gate) (cs : List Cmd) (ds : List Desc) : startsIn (fun _ => true) g cs ds = true :=
    startsIn_iff.mpr fun _ _ _ => rfl
  have hdesc (env : Env) (P : Proxy) (d : CommitDesc) : descStarts (fun _ => true) env P d = true := by
    simp [descStarts, hin]
  obtain ⟨env, i⟩ := i
  unfold starts
  split <;> simp [hin, hdesc, GuardedRun.of_forall]

section

variable (hnum : P.Numbered n)
include hnum

lemma proxyCommitOnRecord_effects {k recvSeq : ℕ} {payload : Bytes}
    (hs : starts S P (env, .record k recvSeq payload) = true) :
    Effects env S P [] (proxyCommitOnRecord env P k recvSeq payload) := by
  -- A new context has no descriptors.
  have hstart {c : Ctx} (hnone : P.gate.fault = none) (hc : P.getCtx k = some c)
      (htakes : c.takes recvSeq payload = true) : P.gate.nextGlobal = 0 →
      ∀ x ∈ firstWrite (c.cmdsWith env.now payload) c.descs, S x = true := by
    rcases Proxy.getCtx_cases hc with hl | ⟨-, rfl⟩
    · refine startsIn_iff.mp ?_
      simpa [starts, hnone, hl, htakes] using hs
    · intro _ x hx
      simp [Ctx.cmdsWith] at hx
  -- The queues are those from before the record.
  have hqueues {c : Ctx} (hc : P.getCtx k = some c) :
      (Ctx.flow { c with lastRecv := some recvSeq, buf := c.buf ++ payload } P.gate).Numbered n :=
    show (c.flow P.gate).Numbered n from hnum.focus hc
  have hcases := proxyCommitOnRecord_cases env P k recvSeq payload
  generalize proxyCommitOnRecord env P k recvSeq payload = R at hcases ⊢
  cases hcases with
  | same => exact .refl
  | fault reason => exact (Effect.fault reason).single
  | full hnone hc =>
    refine (Effect.flow hc ?_ (.inl hnone)).single
    exact .single (.fault 1)
  | framed hnone hc htakes hb =>
    have hmoves : Moves env S _ _ :=
      pcFrame_moves (hqueues hc) hb (by simpa [Ctx.cmdsWith, hb] using hstart hnone hc htakes)
    exact (Effect.flow hc hmoves (.inl hnone)).single
  | matched hnone hc htakes hb =>
    have hmoves : Moves env S _ _ :=
      pcTryMatch_moves (hqueues hc) (by simpa [Ctx.cmdsWith, hb] using hstart hnone hc htakes)
    exact (Effect.flow hc hmoves (.inl hnone)).single

lemma pcOnDesc_effects {d : CommitDesc} (hd : d.write = true → n < d.global)
    (hs : descStarts S env P d = true) (hk : descKeeps P d = true) :
    Effects env S P [d] (pcOnDesc env P d) := by
  have hcases := pcOnDesc_cases env P d
  generalize pcOnDesc env P d = R at hcases ⊢
  cases hcases with
  | faulty hfault => exact (Effect.miss fun hn => absurd hn hfault).single
  | full => exact (Effect.fault 1).single.tail (.miss Gate.of_raise)
  | ignored hnone hc hign =>
    -- The context is not a new one.
    refine (Effect.miss fun _ => ?_).single
    rcases Proxy.getCtx_cases hc with hl | ⟨-, rfl⟩
    · simpa [descKeeps, hnone, hl, hign] using hk
    · simp at hign
  | kept hc => exact (Effect.receive hc).single
  | @matched c hnone hc hign hb =>
    have hreceive : Effect env S P [d] _ := .receive hc
    have hnum' := (hreceive.numbered (by simpa using hd) hnum).focus (Proxy.getCtx_put _ _ _)
    have hmatch : Moves env S _ _ := pcTryMatch_moves hnum' (startsIn_iff.mp ?_)
    · rw [← Proxy.put_put P d.cookie ({ c with descs := c.descs ++ [⟨d, env.now⟩] }, P.gate)]
      exact hreceive.single.tail (.flow (Proxy.getCtx_put _ _ _) hmatch (.inl hnone))
    rcases Proxy.getCtx_cases hc with hl | ⟨-, rfl⟩
    · simpa [descStarts, hnone, hl, hign, hb] using hs
    · simp at hb

lemma pcOnDescs_effects
    (hds : ∀ d ∈ ds, d.write = true → n < d.global)
    (hs : GuardedRun (pcOnDesc env) (fun P d => descStarts S env P d = true) P ds)
    (hk : GuardedRun (pcOnDesc env) (fun P d => descKeeps P d = true) P ds) :
    Effects env S P ds (ds.foldl (pcOnDesc env) P) := by
  induction ds generalizing P with
  | nil => exact .refl
  | cons d ds ih =>
    have hd := pcOnDesc_effects hnum (hds d (.head _)) hs.1 hk.1
    have hnum' := hd.numbered (by simpa using hds d (.head _)) hnum
    exact hd.trans (ih hnum' (fun d hd => hds d (.tail _ hd)) hs.2 hk.2)

lemma pcOnBaseline_effects {k nextSeq : ℕ}
    (hi : P.gate.fault = none → P.idle k = true) : Effects env S P [] (pcOnBaseline env P k nextSeq) := by
  unfold pcOnBaseline
  split
  · exact (Effect.fault 1).single
  rename_i c hc
  obtain ⟨m, hm⟩ := Gate.freeAll_eq P.gate c.cmds
  rw [hm]
  have hdrop : Effect env S P [] (P.put k (c.rebase nextSeq, P.gate.setPending m)) := .drop m hc hi rfl rfl
  have hnum₁ := (hdrop.numbered (by simp) hnum).focus (Proxy.getCtx_put _ _ _)
  -- There are no descriptors that the bytes kept could be matched with.
  have hquiet := rebase_quiet env c nextSeq (P.gate.setPending m)
  have hframe : Moves env S ((c.rebase nextSeq).flow (P.gate.setPending m)) _ :=
    pcFrame_moves hnum₁ rfl fun _ x hx => by simp [Ctx.rebase] at hx
  have hmatch : Moves env S _ _ := pcTryMatch_moves (hframe.numbered hnum₁) fun _ x hx => by
    rw [show Ctx.descs _ = [] from hquiet.descs] at hx
    simp at hx
  have hmatched : Flow.Quiet _ _ := (quiet_pumped env _).tryMatch (r := []) hquiet
  rw [← Proxy.put_put P k (c.rebase nextSeq, P.gate.setPending m)]
  exact hdrop.single.tail (.flow (Proxy.getCtx_put _ _ _) (hframe.trans hmatch) (.inr hmatched.emitted))

end

lemma miss_effects (ds : List CommitDesc) (hds : P.gate.fault = none → ∀ d ∈ ds, d.write = false) :
    Effects env S P ds P := by
  induction ds with
  | nil => exact .refl
  | cons d ds ih =>
    exact (Effect.miss fun hn => hds hn d (.head _)).single.trans (ih fun hn d hd => hds hn d (.tail _ hd))

lemma foldl_pcOnDesc_of_fault (hfault : P.gate.fault.isSome = true) (ds : List CommitDesc) :
    ds.foldl (pcOnDesc env) P = P := by
  induction ds with
  | nil => rfl
  | cons d ds ih => rw [List.foldl_cons, pcOnDesc, if_pos hfault, ih]

lemma batch_effects {epoch : ℕ} (hnum : P.Numbered n)
    (hds : ∀ d ∈ ds, d.write = true → n < d.global) (hs : starts S P (env, .msg (.batch epoch ds)) = true)
    (hk : keeps P (env, .msg (.batch epoch ds)) = true) (hstale : P.epochStale epoch = false) :
    Effects env S P ds (ds.foldl (pcOnDesc env) P) := by
  by_cases hfault : P.gate.fault.isSome = true
  · rw [foldl_pcOnDesc_of_fault hfault]
    exact miss_effects ds fun hn => by simp [hn] at hfault
  · simp only [starts, keeps, hfault, hstale, Bool.false_or, Bool.false_eq_true, if_false, decide_eq_true_eq] at hs hk
    exact pcOnDescs_effects hnum hds hs hk

/-- Neither HELLO nor RESUME nor a poll. -/
def Input.plain : Input → Bool
  | .record _ _ _ => true
  | .msg .hello => false
  | .msg (.resume _ _) => false
  | .msg _ => true
  | .poll _ => false

/-- The message of an input. -/
def Input.msgs : Input → List Msg
  | .msg m => [m]
  | _ => []

/-- The descriptors of an input. -/
def Input.descs (i : Input) : List CommitDesc := i.msgs.flatMap Msg.descs

@[simp] lemma descs_batch (epoch : ℕ) (ds : List CommitDesc) : Input.descs (.msg (.batch epoch ds)) = ds :=
  flatMap_singleton ..

lemma proxyStep_effects (hp : i.2.plain = true) (hnum : P.Numbered n)
    (hds : ∀ d ∈ i.2.descs, d.write = true → n < d.global) (hs : starts S P i = true)
    (hk : keeps P i = true) : Effects i.1 S P i.2.descs (proxyStep P i) := by
  obtain ⟨env, i⟩ := i
  cases i with
  | record k recvSeq payload => exact proxyCommitOnRecord_effects hnum hs
  | poll buffering => simp [Input.plain] at hp
  | msg m =>
    have hcases := pcProcessMsg_cases env P m
    simp only [proxyStep]
    generalize pcProcessMsg env P m = R at hcases ⊢
    cases hcases with
    | hello => simp [Input.plain] at hp
    | resume _ => simp [Input.plain] at hp
    | baseline epoch k nextSeq =>
      have hepoch : Effect env S P [] { P with sessionEpoch := epoch } := .epoch epoch
      exact hepoch.single.trans (pcOnBaseline_effects (hepoch.numbered (by simp) hnum) fun hn =>
        show P.idle k = true by simpa [keeps, show P.gate.fault = none from hn] using hk)
    | same hm =>
      rw [show Input.descs (.msg m) = m.descs from flatMap_singleton .., hm]
      exact .refl
    | ignore m hstale hc =>
      exact (Effect.drop m hc (fun hn => by simpa [keeps, hn, hstale] using hk) rfl rfl).single
    | forget m hstale hc => exact (Effect.forget m hc fun hn => by simpa [keeps, hn, hstale] using hk).single
    | @stale epoch ds hstale =>
      rw [descs_batch]
      refine miss_effects ds fun hn d hd => ?_
      have hall : ∀ d ∈ ds, d.write = false := by simpa [keeps, hn, hstale, writesOf] using hk
      exact hall d hd
    | long => simpa using (Effect.fault 2).single.trans (miss_effects _ Gate.of_raise)
    | batch hstale =>
      rw [descs_batch] at hds ⊢
      exact batch_effects hnum hds hs hk hstale

lemma proxyStep_cases (P : Proxy) (hh : Msg.hello ∉ i.2.msgs) :
    i.2.plain = true ∨
    (∃ b w f, i.2 = .poll b ∧ (f = none → P.gate.fault = none) ∧
      (w = P.gate.waitResume ∨ P.gate.waitResume = none ∧ 0 < P.gate.recBytes) ∧
      proxyStep P i = { P with gate := { P.gate with buffering := b, waitResume := w, fault := f } }) ∨
    ∃ epoch m, i.2 = .msg (.resume epoch m) ∧ (P.epochStale epoch = true ∧ proxyStep P i = P ∨
      P.epochStale epoch = false ∧ proxyStep P i = { P with gate := pcOnResume i.1 m P.gate }) := by
  obtain ⟨env, i⟩ := i
  cases i with
  | record _ _ _ => exact .inl rfl
  | poll b =>
    obtain ⟨w, f, hpoll⟩ := proxyCommitPoll_eq env P b
    exact .inr (.inl ⟨b, w, f, rfl, hpoll⟩)
  | msg m =>
    cases m with
    | hello => simp [Input.msgs] at hh
    | resume epoch m =>
      refine .inr (.inr ⟨epoch, m, rfl, ?_⟩)
      cases hs : P.epochStale epoch <;> simp [proxyStep, pcProcessMsg, hs]
    | _ => exact .inl rfl

end

end PocketKv.CommitGate
