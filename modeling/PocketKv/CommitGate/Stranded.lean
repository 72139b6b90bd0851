import PocketKv.CommitGate.Effects

/-!
# Recovery data after a barrier
-/

namespace PocketKv.CommitGate

open Library Resp List

/-! ### Writes that pass -/

/-- What was handed over since `g` was emitted. -/
def Gate.Forwards (g g' : Gate) : Prop := ∃ ws, g'.handed = g.handed ++ ws ∧ g'.emitted = g.emitted ++ ws

lemma Gate.Forwards.refl (g : Gate) : g.Forwards g := ⟨[], by simp, by simp⟩

/-- What was handed over since `g` was emitted, unless a fault was raised; what diverts writes is the same. -/
structure Passes (g g' : Gate) : Prop where
  /-- `g_buffering` is the same. -/
  buffering : g'.buffering = g.buffering
  /-- `g_wait_resume` is the same. -/
  waitResume : g'.waitResume = g.waitResume
  recovery : g'.recovery = g.recovery
  fault : g'.fault = none → g.fault = none
  passed : g'.fault = none → g.Forwards g'

section

variable {g g' g'' : Gate}

lemma Passes.refl (g : Gate) : Passes g g :=
  ⟨rfl, rfl, rfl, id, fun _ => .refl g⟩

section

variable (h : Passes g g')
include h

lemma Passes.trans (h' : Passes g' g'') : Passes g g'' := by
  refine ⟨h'.buffering.trans h.buffering, h'.waitResume.trans h.waitResume, h'.recovery.trans h.recovery,
    fun hn => h.fault (h'.fault hn), fun hn => ?_⟩
  obtain ⟨ws, hws, hws'⟩ := h.passed (h'.fault hn)
  obtain ⟨vs, hvs, hvs'⟩ := h'.passed hn
  refine ⟨ws ++ vs, ?_, ?_⟩
  · rw [hvs, hws, append_assoc]
  · rw [hvs', hws', append_assoc]

lemma Passes.diverts : g'.diverts = g.diverts := by
  unfold Gate.diverts Gate.recBytes
  rw [h.buffering, h.waitResume, h.recovery]

lemma Passes.raise (reason : ℕ) : Passes g (g'.raise reason) :=
  ⟨h.buffering, h.waitResume, h.recovery, Gate.of_raise,
    Gate.of_raise⟩

lemma Passes.setReady (rs : List Cmd) : Passes g (g'.setReady rs) :=
  { h with }

lemma Passes.setNext (n : ℕ) : Passes g (g'.setNext n) :=
  { h with }

lemma Passes.setPending (n : ℕ) : Passes g (g'.setPending n) :=
  { h with }

lemma Passes.free (c : Cmd) : Passes g (g'.free c) := h.setPending _

lemma Passes.freeAll (cs : List Cmd) : Passes g (g'.freeAll cs) := by
  obtain ⟨n, hn⟩ := Gate.freeAll_eq g' cs
  rw [hn]
  exact h.setPending n

end

lemma pcEmitCmd_passes (env : Env) (c : Cmd) (hd : g.diverts = false) : Passes g (pcEmitCmd env c g).1 := by
  rcases pcEmitCmd_cases env c g with ⟨hd', -⟩ | ⟨-, h | h⟩
  · simp [hd] at hd'
  · rw [h]
    exact ⟨rfl, rfl, rfl, id, fun _ => ⟨[c.toRec], rfl, rfl⟩⟩
  · rw [h]
    exact ⟨rfl, rfl, rfl, Gate.of_raise,
      Gate.of_raise⟩

lemma drainLoop_passes (env : Env) (fuel : ℕ) (hd : g.diverts = false) : Passes g (drainLoop env fuel g) := by
  have hemit {g' : Gate} (c : Cmd) (rs : List Cmd) (h : Passes g g') :
      Passes g ((pcEmitCmd env c (g'.setReady rs)).1.free c) :=
    ((h.setReady rs).trans (pcEmitCmd_passes env c ((h.setReady rs).diverts.trans hd))).free c
  exact drainLoop_rule (I := Passes g) fuel (fun _ _ h => h.setNext _) (fun _ _ h => h.raise 2)
    (fun _ _ _ h => (hemit _ _ h).setNext _) (fun _ _ _ h => hemit _ _ h) (.refl g)

end

/-! ### Steps that hand nothing over -/

/-- The numbers of the writes that are matched. -/
def matchedWrites : List Cmd → List Desc → List ℕ
  | c :: cs, d :: ds =>
    if c.matches d.desc then
      if d.desc.write then d.desc.global :: matchedWrites cs ds else matchedWrites cs ds
    else []
  | _, _ => []

/-- The next write is neither ready nor made ready by matching the two queues. -/
def Stays (g : Gate) (cs : List Cmd) (ds : List Desc) : Prop :=
  ∀ n ∈ matchedWrites cs ds, g.nextGlobal ≠ 0 ∧ g.nextGlobal ∉ n :: g.ready.map (·.global)

instance (g : Gate) (cs : List Cmd) (ds : List Desc) : Decidable (Stays g cs ds) :=
  inferInstanceAs (Decidable (∀ n ∈ _, _))

/-- `Stays` while writes go to the recovery buffer. -/
def Holds (g : Gate) (cs : List Cmd) (ds : List Desc) : Prop := g.diverts = true → Stays g cs ds

section

variable {g g' : Gate} {cs rest : List Cmd} {ds : List Desc} {c : Cmd} {d : Desc}

lemma matchedWrites_nil (cs : List Cmd) : matchedWrites cs [] = [] := by
  cases cs <;> rfl

lemma Holds.of_nil (g : Gate) (cs : List Cmd) : Holds g cs [] := fun _ n hn => by
  simp [matchedWrites_nil] at hn

lemma Holds.congr (h : Holds g cs ds) (hd : g'.diverts = g.diverts) (hn : g'.nextGlobal = g.nextGlobal)
    (hr : g'.ready = g.ready) : Holds g' cs ds := by
  intro hd'
  rw [Stays, hn, hr]
  exact h (hd ▸ hd')

lemma drainLoop_stays (env : Env) (fuel : ℕ) (h0 : g.nextGlobal ≠ 0) (hr : g.nextGlobal ∉ g.ready.map (·.global)) :
    drainLoop env fuel g = g ∨ drainLoop env fuel g = g.raise 2 := by
  cases fuel with
  | zero => exact .inl rfl
  | succ fuel =>
    rw [drainLoop]
    split
    · exact .inl rfl
    rename_i c rs hc
    have hne : g.nextGlobal ≠ c.global := by
      rw [hc] at hr
      exact fun heq => hr (by simp [heq])
    simp only [if_neg h0]
    split
    · exact .inr rfl
    · rw [if_pos (by omega)]
      exact .inl rfl

lemma pcReady_passes (env : Env) (hm : c.matches d.desc = true) (hw : d.desc.write = true)
    (h : Holds g (c :: cs ++ rest) (d :: ds)) :
    Passes g (pcReady env c d g) ∧ Holds (pcReady env c d g) (cs ++ rest) ds := by
  have hmatched : matchedWrites (c :: cs ++ rest) (d :: ds) =
      d.desc.global :: matchedWrites (cs ++ rest) ds := by
    simp [matchedWrites, hm, hw]
  have hinsert : Passes g (g.setReady (pcReadyInsert { c with global := d.desc.global } g.ready)) :=
    (Passes.refl g).setReady _
  unfold pcReady
  set g₁ := g.setReady (pcReadyInsert { c with global := d.desc.global } g.ready) with hg₁
  cases hd : g.diverts with
  | false =>
    have hdrain : Passes g₁ (pcDrainReady env g₁) := drainLoop_passes env _ (hinsert.diverts.trans hd)
    refine ⟨hinsert.trans hdrain, fun hd' => ?_⟩
    rw [hdrain.diverts, hinsert.diverts, hd] at hd'
    cases hd'
  | true =>
    have hstays := h hd
    rw [Stays, hmatched] at hstays
    obtain ⟨h0, hhead⟩ := hstays _ (.head _)
    have hready (n : ℕ) : n ∈ g₁.ready.map (·.global) ↔ n ∈ d.desc.global :: g.ready.map (·.global) := by
      rw [hg₁, Gate.setReady_ready]
      exact ((pcReadyInsert_perm _ _).map (·.global)).mem_iff
    have hkept : Holds g₁ (cs ++ rest) ds := by
      intro _ n hn
      obtain ⟨-, hrest⟩ := hstays n (.tail _ hn)
      refine ⟨h0, fun hmem => ?_⟩
      rcases mem_cons.mp hmem with heq | hmem
      · exact hrest (by rw [hg₁] at heq; simp at heq; simp [heq])
      · exact hhead ((hready _).mp hmem)
    have hdrain := drainLoop_stays env (g := g₁) g₁.ready.length h0 (fun hmem => hhead ((hready _).mp hmem))
    rcases hdrain with heq | heq
    · rw [pcDrainReady, heq]
      exact ⟨hinsert, hkept⟩
    · rw [pcDrainReady, heq]
      exact ⟨hinsert.raise 2, hkept.congr rfl rfl rfl⟩

/-- What was handed over since `g` was passed on, and what is to be matched will not be handed over. -/
lemma passes_pumped (env : Env) (g : Gate) :
    Pumped env (fun rest y => Passes g y.gate ∧ Holds y.gate (y.cmds ++ rest) y.descs)
      fun rest y => Passes g y.gate ∧ Holds y.gate (y.cmds ++ rest) y.descs := by
  refine .of_invariant (fun _ h => ?_) (fun reason h => ?_) (fun hm hw h => ?_) fun hm hw h => ?_
  · refine ⟨h.1.setPending _, ?_⟩
    rw [Flow.frame, append_assoc]
    exact h.2.congr rfl rfl rfl
  · exact ⟨h.1.raise reason, h.2.congr rfl rfl rfl⟩
  · refine ⟨h.1.free _, fun hd n hn => h.2 hd n ?_⟩
    simpa [matchedWrites, hm, hw] using hn
  · obtain ⟨hpass, hholds⟩ := pcReady_passes env hm hw h.2
    exact ⟨h.1.trans hpass, hholds⟩

variable {c : Ctx}

lemma pcTryMatch_passes (env : Env) (h : Holds g c.cmds c.descs) : Passes g (pcTryMatch env c g).2 := by
  refine ((passes_pumped env g).tryMatch (r := []) ⟨.refl g, ?_⟩).1
  rw [append_nil]
  exact h

lemma pcFrame_passes (env : Env) (hb : c.baseline = true)
    (h : Holds g (c.cmds ++ framed env.now c.nextSeq (pcFrameCtx c.buf).1) c.descs) :
    Passes g (pcFrame env c g).2 :=
  ((passes_pumped env g).pcFrame hb ⟨.refl g, h⟩).1

end

/-! ### Steps of the proxy -/

/-- `Stays` for a descriptor. -/
def descStays (env : Env) (P : Proxy) (d : CommitDesc) : Bool :=
  P.gate.fault.isSome || (P.getCtx d.cookie).all fun c =>
    c.ignored || !c.baseline || Stays P.gate c.cmds (c.descs ++ [⟨d, env.now⟩])

/-- `Stays` for an input. -/
def stays (P : Proxy) (i : Env × Input) : Bool :=
  P.gate.fault.isSome ||
    match i.2 with
    | .record k recvSeq payload =>
      (P.getCtx k).all fun c =>
        !c.takes recvSeq payload || Stays P.gate (c.cmdsWith i.1.now payload) c.descs
    | .msg (.batch epoch ds) =>
      P.epochStale epoch || GuardedRun (pcOnDesc i.1) (fun P d => descStays i.1 P d = true) P ds
    | _ => true

section

variable {env : Env} {P : Proxy}

lemma proxyCommitOnRecord_passes {k recvSeq : ℕ} {payload : Bytes}
    (h : P.gate.diverts = true → stays P (env, .record k recvSeq payload) = true) :
    Passes P.gate (proxyCommitOnRecord env P k recvSeq payload).gate := by
  have hholds {c : Ctx} (hnone : P.gate.fault = none) (hc : P.getCtx k = some c)
      (htakes : c.takes recvSeq payload = true) : Holds P.gate (c.cmdsWith env.now payload) c.descs := by
    intro hd
    simpa [stays, hnone, hc, htakes] using h hd
  have hcases := proxyCommitOnRecord_cases env P k recvSeq payload
  generalize proxyCommitOnRecord env P k recvSeq payload = R at hcases ⊢
  cases hcases with
  | same => exact .refl _
  | fault reason => exact (Passes.refl _).raise reason
  | full hnone hc => exact (Passes.refl _).raise 1
  | framed hnone hc htakes hb =>
    exact pcFrame_passes env hb (by simpa [Ctx.cmdsWith, hb] using hholds hnone hc htakes)
  | matched hnone hc htakes hb =>
    exact pcTryMatch_passes env (by simpa [Ctx.cmdsWith, hb] using hholds hnone hc htakes)

lemma pcOnDesc_passes {d : CommitDesc} (h : P.gate.diverts = true → descStays env P d = true) :
    Passes P.gate (pcOnDesc env P d).gate := by
  have hcases := pcOnDesc_cases env P d
  generalize pcOnDesc env P d = R at hcases ⊢
  cases hcases with
  | faulty _ | ignored _ _ _ | kept _ => exact .refl _
  | full => exact (Passes.refl _).raise 1
  | matched hnone hc hign hb =>
    refine pcTryMatch_passes env fun hd => ?_
    simpa [descStays, hnone, hc, hign, hb] using h hd

lemma pcOnDescs_passes (ds : List CommitDesc)
    (h : P.gate.diverts = true → GuardedRun (pcOnDesc env) (fun P d => descStays env P d = true) P ds) :
    Passes P.gate (ds.foldl (pcOnDesc env) P).gate := by
  induction ds generalizing P with
  | nil => exact .refl _
  | cons d ds ih =>
    have hpass := pcOnDesc_passes fun hd => (h hd).1
    exact hpass.trans (ih fun hd => (h (hpass.diverts ▸ hd)).2)

lemma pcOnBaseline_passes (k nextSeq : ℕ) : Passes P.gate (pcOnBaseline env P k nextSeq).gate := by
  unfold pcOnBaseline
  split
  · exact (Passes.refl _).raise 1
  rename_i c hc
  have hframe : Passes P.gate (pcFrame env (c.rebase nextSeq) (P.gate.freeAll c.cmds)).2 :=
    ((Passes.refl _).freeAll _).trans (pcFrame_passes env rfl (.of_nil _ _))
  refine hframe.trans (pcTryMatch_passes env ?_)
  rw [show (pcFrame env _ _).1.descs = [] from (rebase_quiet env c nextSeq _).descs]
  exact .of_nil _ _

lemma proxyStep_passes {i : Env × Input} (hp : i.2.plain = true)
    (h : P.gate.diverts = true → stays P i = true) : Passes P.gate (proxyStep P i).gate := by
  obtain ⟨env, i⟩ := i
  cases i with
  | poll b => simp [Input.plain] at hp
  | record k recvSeq payload => exact proxyCommitOnRecord_passes h
  | msg m =>
    have hcases := pcProcessMsg_cases env P m
    simp only [proxyStep]
    generalize pcProcessMsg env P m = R at hcases ⊢
    cases hcases with
    | hello => simp [Input.plain] at hp
    | resume _ => simp [Input.plain] at hp
    | baseline epoch k nextSeq => exact pcOnBaseline_passes (P := { P with sessionEpoch := epoch }) k nextSeq
    | same _ | stale _ => exact .refl _
    | ignore n _ _ | forget n _ _ => exact (Passes.refl _).setPending n
    | long => exact (Passes.refl _).raise 2
    | batch hstale =>
      by_cases hfault : P.gate.fault.isSome = true
      · rw [foldl_pcOnDesc_of_fault hfault]
        exact .refl _
      · refine pcOnDescs_passes _ fun hd => ?_
        simpa [stays, hfault, hstale] using h hd

end

/-! ### The main loop and the master -/

/-- Where the barrier is. -/
inductive Phase where
  | down
  | up
  /-- RESUME has been sent, and `FULLSYNC_STATE` has not been written yet. -/
  | resumed
  deriving DecidableEq

/-- The proxy, the cell `FULLSYNC_STATE` and the channel. -/
structure Loop where
  proxy : Proxy := {}
  /-- `g_state == STATE_BUFFERING`. -/
  buffering : Bool := false
  /-- `g_fs_req_seen`. -/
  seen : Bool := false
  /-- `FULLSYNC_STATE` as the master wrote it. -/
  fullsyncState : Bool := false
  channel : List Msg := []
  phase : Phase := .down

/-- A step of the master or of the proxy. -/
inductive LoopInput where
  /-- A barrier goes up: `FULLSYNC_STATE=1`. -/
  | raise
  | publish (m : Msg)
  /-- The first half of `repl_barrier_release`: RESUME is sent. -/
  | resume (epoch marker : ℕ)
  /-- The second half: `FULLSYNC_STATE=0`. -/
  | lower
  /-- `pc_read_master` reads one message. -/
  | read (env : Env)
  /-- The rest of `proxy_commit_poll`, with the state of the proxy. -/
  | poll (env : Env)
  | record (env : Env) (k recvSeq : ℕ) (payload : Bytes)
  /-- The edges of `FULLSYNC_STATE` are looked for. -/
  | look
  /-- `proxy_capture_drop_pending`. -/
  | dropPending

/-- A step. -/
def Loop.step (S : Loop) : LoopInput → Loop
  | .raise => if S.phase = .down then { S with phase := .up, fullsyncState := true } else S
  | .publish m => if (Input.msg m).plain then { S with channel := S.channel ++ [m] } else S
  | .resume epoch marker =>
    if S.phase = .up then { S with phase := .resumed, channel := S.channel ++ [.resume epoch marker] } else S
  | .lower => if S.phase = .resumed then { S with phase := .down, fullsyncState := false } else S
  | .read env =>
    match S.channel with
    | [] => S
    | m :: ms => { S with proxy := proxyStep S.proxy (env, .msg m), channel := ms }
  | .poll env => { S with proxy := proxyStep S.proxy (env, .poll S.buffering) }
  | .record env k recvSeq payload => { S with proxy := proxyStep S.proxy (env, .record k recvSeq payload) }
  | .look =>
    if S.fullsyncState && !S.seen then { S with seen := true, buffering := true }
    else if !S.fullsyncState && S.seen then { S with seen := false, buffering := false }
    else S
  | .dropPending => { S with buffering := true, proxy := proxyCommitPurge S.proxy }

/-- The message is a RESUME. -/
def Msg.isResume : Msg → Bool
  | .resume _ _ => true
  | _ => false

/-- A RESUME is still to come. -/
def Loop.owed (S : Loop) : Bool := S.phase = .up || S.channel.any Msg.isResume

/-- What the proxy sees of a step. -/
def Loop.input (S : Loop) : LoopInput → Option (Env × Input)
  | .read env => S.channel.head?.map fun m => (env, .msg m)
  | .record env k recvSeq payload => some (env, .record k recvSeq payload)
  | .poll env => some (env, .poll S.buffering)
  | _ => none

/-- The RESUME that is read, if it is one, is not taken to be of an older session. -/
def heedsResume (P : Proxy) : Input → Bool
  | .msg (.resume epoch _) => !P.epochStale epoch
  | _ => true

/-- Once no RESUME is to come, a gate that still buffers hands nothing over; no RESUME is dropped. -/
def prompt (S : Loop) (i : LoopInput) : Bool :=
  (S.input i).all fun j => heedsResume S.proxy j.2 && (S.owed || !S.proxy.gate.buffering || stays S.proxy j)

/-- Nothing waits for a RESUME. -/
def Gate.Clear (g : Gate) : Prop := g.recovery = [] ∧ g.waitResume = none

lemma Gate.Clear.diverts {g : Gate} (h : g.Clear) : g.diverts = g.buffering := by
  simp [Gate.diverts, Gate.recBytes, h.1, h.2]

/-- Unless a RESUME is to come or there is a fault, nothing waits for one. -/
structure Loop.Unstranded (S : Loop) : Prop where
  clear : S.owed = false → S.proxy.gate.fault = none → S.proxy.gate.Clear
  regular : Msg.hello ∉ S.channel

section

variable {S : Loop} {i : LoopInput} {j : Env × Input}

lemma prompt_input (hp : prompt S i = true) (hj : S.input i = some j) :
    heedsResume S.proxy j.2 = true ∧
      (S.owed = true ∨ S.proxy.gate.buffering = false ∨ stays S.proxy j = true) := by
  rw [prompt, hj, Option.all_some, Bool.and_eq_true, Bool.or_eq_true, Bool.or_eq_true, Bool.not_eq_true'] at hp
  exact hp.imp_right or_assoc.mp

lemma Loop.Unstranded.plain (h : S.Unstranded) (hplain : j.2.plain = true)
    (hj : S.owed = true ∨ S.proxy.gate.buffering = false ∨ stays S.proxy j = true) (howed : S.owed = false)
    (hn : (proxyStep S.proxy j).gate.fault = none) :
    (proxyStep S.proxy j).gate.Clear ∧ S.proxy.gate.Forwards (proxyStep S.proxy j).gate := by
  have hpass : Passes S.proxy.gate (proxyStep S.proxy j).gate := by
    refine proxyStep_passes hplain fun hd => ?_
    by_cases hf : S.proxy.gate.fault = none
    · rw [(h.clear howed hf).diverts] at hd
      simpa [howed, hd] using hj
    · obtain ⟨reason, hreason⟩ := Option.ne_none_iff_exists'.mp hf
      simp [stays, hreason]
  obtain ⟨hr, hw⟩ := h.clear howed (hpass.fault hn)
  exact ⟨⟨hpass.recovery.trans hr, hpass.waitResume.trans hw⟩, hpass.passed hn⟩

lemma Loop.Unstranded.poll (h : S.Unstranded) (env : Env) (howed : S.owed = false)
    (hn : (proxyStep S.proxy (env, .poll S.buffering)).gate.fault = none) :
    (proxyStep S.proxy (env, .poll S.buffering)).gate.Clear ∧
      S.proxy.gate.Forwards (proxyStep S.proxy (env, .poll S.buffering)).gate := by
  obtain ⟨w, f, hf, hw, heq⟩ := proxyCommitPoll_eq env S.proxy S.buffering
  simp only [proxyStep, heq] at hn ⊢
  have hclear := h.clear howed (hf hn)
  refine ⟨⟨hclear.1, ?_⟩, .refl S.proxy.gate⟩
  rcases hw with rfl | ⟨-, hr⟩
  · exact hclear.2
  · simp [Gate.recBytes, hclear.1] at hr

lemma Loop.Unstranded.onward (h : S.Unstranded) (hp : prompt S i = true) (howed : S.owed = false)
    (hi : i ≠ .dropPending) (hn : (S.step i).proxy.gate.fault = none) :
    (S.step i).proxy.gate.Clear ∧ S.proxy.gate.Forwards (S.step i).proxy.gate := by
  have hsame (heq : (S.step i).proxy = S.proxy) :
      (S.step i).proxy.gate.Clear ∧ S.proxy.gate.Forwards (S.step i).proxy.gate := by
    rw [heq] at hn ⊢
    exact ⟨h.clear howed hn, .refl _⟩
  have hnot : ∀ m ∈ S.channel, (Input.msg m).plain = true := by
    intro m hm
    have hresume : S.channel.any Msg.isResume = false := by
      simp only [Loop.owed, Bool.or_eq_false_iff] at howed
      exact howed.2
    cases m with
    | hello => exact absurd hm h.regular
    | resume epoch marker => exact absurd (any_eq_false.mp hresume _ hm) (by simp [Msg.isResume])
    | _ => rfl
  cases i with
  | read env =>
    cases hc : S.channel with
    | nil => exact hsame (by simp [Loop.step, hc])
    | cons m ms =>
      simp only [Loop.step, hc] at hn ⊢
      have hinput : S.input (.read env) = some (env, .msg m) := by simp [Loop.input, hc]
      exact h.plain (hnot m (by simp [hc])) (prompt_input hp hinput).2 howed hn
  | poll env => exact h.poll env howed hn
  | record env k recvSeq payload => exact h.plain rfl (prompt_input hp rfl).2 howed hn
  | dropPending => exact absurd rfl hi
  | raise => exact hsame (by simp only [Loop.step]; split <;> rfl)
  | publish m => exact hsame (by simp only [Loop.step]; split <;> rfl)
  | resume epoch marker => exact hsame (by simp only [Loop.step]; split <;> rfl)
  | lower => exact hsame (by simp only [Loop.step]; split <;> rfl)
  | look =>
    refine hsame ?_
    simp only [Loop.step]
    split
    · rfl
    · split <;> rfl

lemma pcOnResume_clear (env : Env) (marker : ℕ) (g : Gate) : (pcOnResume env marker g).Clear := by
  obtain ⟨f, -, heq⟩ := pcOnResume_eq env marker g
  rw [heq]
  exact ⟨rfl, rfl⟩

lemma Loop.owed_step (howed : S.owed = true) (hn : (S.step i).owed = false) :
    ∃ env epoch marker ms, i = .read env ∧ S.channel = .resume epoch marker :: ms := by
  have hup : S.phase = .up ∨ S.channel.any Msg.isResume = true := by
    simpa [Loop.owed] using howed
  have hsame : ¬ ((S.step i).phase = S.phase ∧ (S.step i).channel = S.channel) := by
    rintro ⟨hphase, hchannel⟩
    rw [Loop.owed, hphase, hchannel, ← Loop.owed, howed] at hn
    cases hn
  cases i with
  | read env =>
    cases hc : S.channel with
    | nil => exact absurd ⟨by simp [Loop.step, hc], by simp [Loop.step, hc]⟩ hsame
    | cons m ms =>
      simp only [Loop.step, hc, Loop.owed, Bool.or_eq_false_iff, decide_eq_false_iff_not] at hn
      rw [hc, any_cons, hn.2, Bool.or_false] at hup
      cases m with
      | resume epoch marker => exact ⟨env, epoch, marker, ms, rfl, rfl⟩
      | _ => simp [Msg.isResume, hn.1] at hup
  | resume epoch marker =>
    simp only [Loop.step] at hn hsame
    split at hn
    · simp [Loop.owed, Msg.isResume] at hn
    · rename_i hphase
      simp [hphase] at hsame
  | raise =>
    simp only [Loop.step] at hn hsame
    split at hn
    · simp [Loop.owed] at hn
    · rename_i hphase
      simp [hphase] at hsame
  | publish m =>
    simp only [Loop.step] at hn hsame
    split at hn
    · simp only [Loop.owed, any_append, Bool.or_eq_false_iff, decide_eq_false_iff_not] at hn
      simp [hn.1, hn.2.1] at hup
    · rename_i hplain
      simp [hplain] at hsame
  | lower =>
    simp only [Loop.step] at hn hsame
    split at hn
    · rename_i hphase
      simp only [Loop.owed, Bool.or_eq_false_iff] at hn
      simp [hphase, hn.2] at hup
    · rename_i hphase
      simp [hphase] at hsame
  | look =>
    refine absurd ?_ hsame
    simp only [Loop.step]
    split
    · exact ⟨rfl, rfl⟩
    · split <;> exact ⟨rfl, rfl⟩
  | poll env => exact absurd ⟨rfl, rfl⟩ hsame
  | record env k recvSeq payload => exact absurd ⟨rfl, rfl⟩ hsame
  | dropPending => exact absurd ⟨rfl, rfl⟩ hsame

lemma Loop.regular_step (h : Msg.hello ∉ S.channel) : Msg.hello ∉ (S.step i).channel := by
  cases i with
  | read env =>
    cases hc : S.channel with
    | nil => simp [Loop.step, hc]
    | cons m ms =>
      simp only [Loop.step, hc]
      exact fun hm => h (hc ▸ .tail _ hm)
  | publish m =>
    simp only [Loop.step]
    split
    · rename_i hplain
      simp only [mem_append, mem_singleton, not_or]
      refine ⟨h, ?_⟩
      rintro rfl
      simp [Input.plain] at hplain
    · exact h
  | resume epoch marker =>
    simp only [Loop.step]
    split
    · simpa using h
    · exact h
  | raise => simp only [Loop.step]; split <;> exact h
  | lower => simp only [Loop.step]; split <;> exact h
  | look =>
    simp only [Loop.step]
    split
    · exact h
    · split <;> exact h
  | poll env => exact h
  | record env k recvSeq payload => exact h
  | dropPending => exact h

lemma Loop.Unstranded.step (h : S.Unstranded) (hp : prompt S i = true) : (S.step i).Unstranded := by
  refine ⟨fun hn hf => ?_, Loop.regular_step h.regular⟩
  cases howed : S.owed with
  | true =>
    obtain ⟨env, epoch, marker, ms, rfl, hc⟩ := Loop.owed_step howed hn
    have hinput : S.input (.read env) = some (env, .msg (.resume epoch marker)) := by simp [Loop.input, hc]
    have hstale : S.proxy.epochStale epoch = false := by
      simpa [heedsResume] using (prompt_input hp hinput).1
    simp only [Loop.step, hc, proxyStep, pcProcessMsg, hstale]
    exact pcOnResume_clear env marker _
  | false =>
    by_cases hi : i = .dropPending
    · rw [hi]
      exact ⟨rfl, rfl⟩
    · exact (h.onward hp howed hi hf).1

end

lemma Loop.Unstranded.start : Loop.Unstranded {} := ⟨fun _ _ => ⟨rfl, rfl⟩, by simp⟩

/-- **Recovery data is not stranded** if the gate hands nothing over while it still buffers and no RESUME is to
come, and no RESUME is dropped: after the falling edge, with no barrier up and its RESUME read, the recovery buffer
is empty or there is a fault, and what is handed over is emitted or there is a fault. -/
theorem no_stranded_recovery (is : List LoopInput)
    (h : GuardedRun Loop.step (fun S i => prompt S i = true) {} is) :
    (∀ js, js <+: is → let S := js.foldl Loop.step {}
      S.seen = false → S.phase = .down → S.channel.any Msg.isResume = false → S.proxy.gate.fault = none →
        S.proxy.gate.recovery = [] ∧ S.proxy.gate.waitResume = none) ∧
    ∀ js i, js ++ [i] <+: is → let S := js.foldl Loop.step {}
      S.owed = false → i ≠ .dropPending → (S.step i).proxy.gate.fault = none →
        ∃ ws, (S.step i).proxy.gate.handed = S.proxy.gate.handed ++ ws ∧
          (S.step i).proxy.gate.emitted = S.proxy.gate.emitted ++ ws := by
  have hinv (js : List LoopInput) (hjs : js <+: is) : (js.foldl Loop.step {}).Unstranded :=
    (h.of_prefix hjs).invariant (fun _ _ hs hp => hs.step hp) .start
  refine ⟨fun js hjs => ?_, fun js i hjs => ?_⟩
  · intro S _ hdown hchannel hfault
    have howed : S.owed = false := by simp [Loop.owed, hdown, hchannel]
    exact (hinv js hjs).clear howed hfault
  · intro S howed hi hn
    have hp : prompt S i = true := (h.of_prefix hjs).last
    exact ((hinv js ((prefix_append js [i]).trans hjs)).onward hp howed hi hn).2

/-- One moment, and a replica that takes all. -/
def still : Env := ⟨0, fun _ => true⟩

/-- A write behind a barrier that goes down. -/
def upToResume : List LoopInput :=
  [.publish (.baseline 7 1 1), .raise, .look, .read still, .poll still, .record still 1 0 (str "SET a 1\n"),
    .publish (.batch 7 [⟨1, 1, 1, kvsCmdCrc64 (str "SET a 1\n"), 8, true⟩]), .read still, .resume 7 0, .lower]

/-- A write after that. -/
def nextWrite : List LoopInput :=
  [.publish (.batch 7 [⟨1, 2, 2, kvsCmdCrc64 (str "SET b 2\n"), 8, true⟩]), .record still 1 1 (str "SET b 2\n"),
    .read still]

theorem no_stranded_recovery_edge_first :
    let is : List LoopInput := upToResume ++ [.read still, .look, .poll still] ++ nextWrite
    (is.foldl Loop.step {}).seen = false ∧ (is.foldl Loop.step {}).proxy.gate.recovery = [] ∧
      (is.foldl Loop.step {}).proxy.gate.emitted = [⟨1, str "SET a 1\n"⟩, ⟨2, str "SET b 2\n"⟩] := by
  refine ⟨by decide, ?_, by decide⟩
  exact ((no_stranded_recovery _ (by decide)).1 _ (prefix_refl _) (by decide) (by decide) (by decide)
    (by decide)).1

/-- A write matched after RESUME and before the poll after the falling edge goes into the recovery buffer; after two
seconds there is a fault. -/
theorem stranded_recovery :
    let is : List LoopInput := upToResume ++ [.read still] ++ nextWrite ++ [.look, .poll still]
    let S := is.foldl Loop.step {}
    S.seen = false ∧ S.phase = .down ∧ S.owed = false ∧ S.proxy.gate.fault = none ∧
      S.proxy.gate.recovery = [⟨2, str "SET b 2\n"⟩] ∧ S.proxy.gate.waitResume = some 0 ∧
      (S.step (.poll ⟨2001, fun _ => true⟩)).proxy.gate.fault = some 1 := by
  decide

end PocketKv.CommitGate
