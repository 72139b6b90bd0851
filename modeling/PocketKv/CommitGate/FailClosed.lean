import PocketKv.CommitGate.Session

/-!
# The commit gate fails closed
-/

namespace PocketKv.CommitGate

open Library Resp List

/-! ### Numbers in play -/

/-- The numbers that are ready or wait. -/
def Flow.numbers (x : Flow) : Multiset ℕ := (x.gate.ready.map (·.global) : List ℕ) + waiting x.descs

/-- No number is there twice, and none is 0. -/
structure Fair (m : Multiset ℕ) : Prop where
  nodup : m.Nodup
  pos : 0 ∉ m

lemma Fair.mono {m m' : Multiset ℕ} (h : Fair m) (hle : m' ≤ m) : Fair m' :=
  ⟨Multiset.nodup_of_le hle h.nodup, fun h0 => h.pos (Multiset.mem_of_le hle h0)⟩

variable {rs : List Cmd} {i : Env × Input}

section

variable {env : Env} {cs : List Cmd} {ds : List Desc} {g : Gate} {c : Cmd} {d : Desc}

lemma Flow.numbers_congr {x y : Flow} (hr : x.gate.ready = y.gate.ready) (hd : x.descs = y.descs) :
    x.numbers = y.numbers := by
  unfold Flow.numbers
  rw [hr, hd]

lemma numbers_of_ready {g' : Gate} (h : g'.ready = g.ready) :
    Flow.numbers ⟨cs, ds, g'⟩ = Flow.numbers ⟨cs, ds, g⟩ := Flow.numbers_congr h rfl

lemma numbers_pop (hr : g.ready = c :: rs) :
    Flow.numbers ⟨cs, ds, g⟩ = {c.global} + Flow.numbers ⟨cs, ds, g.setReady rs⟩ := by
  simp [Flow.numbers, hr, ← Multiset.cons_coe, ← Multiset.singleton_add, add_assoc]

lemma numbers_skip (hw : d.desc.write = false) :
    Flow.numbers ⟨c :: cs, d :: ds, g⟩ = Flow.numbers ⟨cs, ds, g.free c⟩ := by
  simp [Flow.numbers, waiting_cons_skip hw, Gate.free]

lemma numbers_match (hw : d.desc.write = true) :
    Flow.numbers ⟨cs, ds, g.setReady (pcReadyInsert { c with global := d.desc.global } g.ready)⟩ =
      Flow.numbers ⟨c :: cs, d :: ds, g⟩ := by
  have hp := (pcReadyInsert_perm { c with global := d.desc.global } g.ready).map (·.global)
  simp only [Flow.numbers, Gate.setReady_ready, waiting_cons_write hw, Multiset.coe_eq_coe.mpr hp,
    map_cons, ← Multiset.cons_coe, ← Multiset.singleton_add]
  abel

variable (env) in
lemma numbers_pcEmitCmd (hr : g.ready = c :: rs) :
    Flow.numbers ⟨cs, ds, (pcEmitCmd env c (g.setReady rs)).1⟩ ≤ Flow.numbers ⟨cs, ds, g⟩ := by
  rw [numbers_pop hr, ← numbers_of_ready (pcEmitCmd_ready env c (g.setReady rs))]
  exact Multiset.le_add_left _ _

lemma numbers_drainLoop (cs : List Cmd) (ds : List Desc) (fuel : ℕ) (g : Gate) :
    Flow.numbers ⟨cs, ds, drainLoop env fuel g⟩ ≤ Flow.numbers ⟨cs, ds, g⟩ :=
  drainLoop_rule (I := fun g' => Flow.numbers ⟨cs, ds, g'⟩ ≤ Flow.numbers ⟨cs, ds, g⟩) fuel (fun _ _ h => h)
    (fun _ _ h => h) (fun hr _ _ h => (numbers_pcEmitCmd env hr).trans h)
    (fun hr _ _ h => (numbers_pcEmitCmd env hr).trans h) le_rfl

lemma numbers_pcReady (hw : d.desc.write = true) :
    Flow.numbers ⟨cs, ds, pcReady env c d g⟩ ≤ Flow.numbers ⟨c :: cs, d :: ds, g⟩ := by
  rw [← numbers_match hw]
  exact numbers_drainLoop cs ds _ _

variable (env) in
lemma numbers_pumped (m : Multiset ℕ) :
    Pumped env (fun _ y => y.numbers ≤ m) fun _ y => y.numbers ≤ m :=
  .of_invariant (fun _ h => h) (fun _ h => h) (fun _ hw h => (numbers_skip hw).ge.trans h)
    fun _ hw h => (numbers_pcReady hw).trans h

lemma numbers_pcTryMatch (c : Ctx) (g : Gate) : (flowOf (pcTryMatch env c g)).numbers ≤ (c.flow g).numbers :=
  (numbers_pumped env _).tryMatch (r := []) le_rfl

lemma numbers_pcFrame {c : Ctx} (hb : c.baseline = true) (g : Gate) :
    (flowOf (pcFrame env c g)).numbers ≤ (c.flow g).numbers :=
  (numbers_pumped env _).pcFrame hb le_rfl

end

/-! ### A gate that is shut -/

/-- No write that is ready or waits will be emitted: writes go to the recovery buffer, or the first has a smaller
number than the next, or none has the next number. -/
def Shut (x : Flow) : Prop :=
  x.gate.diverts = true ∨ (∃ c ∈ x.gate.ready.head?, c.global < x.gate.nextGlobal) ∨
    (x.gate.nextGlobal ≠ 0 ∧ x.gate.nextGlobal ∉ x.numbers)

/-- `emit` was never called after a fault. -/
def Heeded (g : Gate) : Prop := ∀ x ∈ g.calls, x.fault = none

/-- There is no fault, or the gate is shut. -/
structure Calm (x : Flow) : Prop where
  fair : Fair x.numbers
  heeded : Heeded x.gate
  calm : x.gate.fault = none ∨ Shut x

section

variable {env : Env} {cs : List Cmd} {ds : List Desc} {g : Gate} {c : Cmd} {d : Desc}

lemma Shut.congr {x y : Flow} (h : Shut x) (hd : x.gate.diverts = true → y.gate.diverts = true)
    (hr : y.gate.ready = x.gate.ready) (hn : y.gate.nextGlobal = x.gate.nextGlobal) (hds : y.descs = x.descs) :
    Shut y := by
  rcases h with h | h | h
  · exact .inl (hd h)
  · exact .inr (.inl (by rwa [hr, hn]))
  · exact .inr (.inr (by rwa [hn, Flow.numbers_congr hr hds]))

lemma Calm.fault_none (h : Calm ⟨cs, ds, g⟩) (hd : g.diverts = false) (hr : g.ready = c :: rs)
    (hn : c.global = g.nextGlobal) : g.fault = none := by
  rcases h.calm with h | h | ⟨c', hc', hlt⟩ | ⟨-, hnot⟩
  · exact h
  · rw [hd] at h
    cases h
  · simp only [hr, head?_cons, Option.mem_def, Option.some.injEq] at hc'
    rw [← hc', hn] at hlt
    exact absurd hlt (lt_irrefl _)
  · refine absurd ?_ hnot
    rw [numbers_pop hr, ← hn]
    exact Multiset.mem_add.mpr (.inl (Multiset.mem_singleton_self _))

lemma Heeded.call (h : Heeded g) (hnone : g.fault = none) (r : Rec) : Heeded (g.call r) := by
  intro x hx
  rcases mem_append.mp hx with hx | hx
  · exact h x hx
  · rw [mem_singleton.mp hx]
    exact hnone

variable (env) in
lemma emit_calm (h : Calm ⟨cs, ds, g⟩) (hr : g.ready = c :: rs) (hn : c.global = g.nextGlobal) :
    ((pcEmitCmd env c (g.setReady rs)).2 = true → (pcEmitCmd env c (g.setReady rs)).1.fault = none) ∧
      Calm ⟨cs, ds, (pcEmitCmd env c (g.setReady rs)).1⟩ := by
  have hfair := h.fair.mono (numbers_pcEmitCmd env hr)
  rcases pcEmitCmd_cases env c (g.setReady rs) with ⟨hd, hcase⟩ | ⟨hd, hcase⟩
  · -- to the recovery buffer
    have hdiv : (((g.setReady rs).hand c.toRec).toRecovery c.toRec).diverts = true :=
      Gate.diverts_toRecovery (g := (g.setReady rs).hand c.toRec) hd c.toRec
    rcases hcase with heq | heq
    · rw [heq] at hfair ⊢
      exact ⟨fun hok => by simpa using hok, hfair, h.heeded, .inr (.inl hdiv)⟩
    · rw [heq] at hfair ⊢
      exact ⟨nofun, hfair, h.heeded, .inr (.inl hdiv)⟩
  · -- to the replica
    have hnone : g.fault = none := h.fault_none hd hr hn
    have hheeded : Heeded (((g.setReady rs).hand c.toRec).call c.toRec) :=
      Heeded.call (g := (g.setReady rs).hand c.toRec) h.heeded hnone c.toRec
    rcases hcase with heq | heq
    · rw [heq] at hfair ⊢
      exact ⟨fun _ => hnone, hfair, hheeded, .inl hnone⟩
    · rw [heq] at hfair ⊢
      refine ⟨nofun, hfair, hheeded, .inr (.inr (.inr ?_))⟩
      -- the number of the write that was refused is not among the others
      have hf := h.fair
      rw [numbers_pop hr] at hf
      have hnodup := hf.nodup
      rw [Multiset.singleton_add, Multiset.nodup_cons, hn] at hnodup
      refine ⟨fun h0 => hf.pos ?_, hnodup.1⟩
      rw [hn, show g.nextGlobal = 0 from h0]
      exact Multiset.mem_add.mpr (.inl (Multiset.mem_singleton_self _))

variable (env) in
lemma drain_calm (fuel : ℕ) (h : Calm ⟨cs, ds, g⟩) : Calm ⟨cs, ds, drainLoop env fuel g⟩ := by
  refine drainLoop_rule (I := fun g => Calm ⟨cs, ds, g⟩) fuel (fun {g c rs} _ h0 h => ⟨h.fair, h.heeded, ?_⟩)
    (fun {g c rs} hr hlt h => ⟨h.fair, h.heeded, .inr (.inr (.inl ⟨c, ?_, hlt⟩))⟩) (fun hr hn hok h => ?_)
    (fun hr hn _ h => ?_) h
  · rcases h.calm with h | h | ⟨c', hc', hlt⟩ | ⟨hne, -⟩
    · exact .inl h
    · exact .inr (.inl h)
    · simp only [h0] at hlt
      omega
    · exact absurd h0 hne
  · simp [Gate.raise_ready, hr]
  · obtain ⟨hnone, hemitted⟩ := emit_calm env h hr hn
    exact ⟨hemitted.fair, hemitted.heeded, .inl (hnone hok)⟩
  · obtain ⟨-, hemitted⟩ := emit_calm env h hr hn
    exact ⟨hemitted.fair, hemitted.heeded, hemitted.calm.imp_right fun h => h.congr id rfl rfl rfl⟩

lemma head_pcReadyInsert {n : ℕ} (h : ∃ c' ∈ rs.head?, c'.global < n) :
    ∃ c' ∈ (pcReadyInsert c rs).head?, c'.global < n := by
  cases rs with
  | nil => simp at h
  | cons r rs =>
    have hr : r.global < n := by simpa using h
    unfold pcReadyInsert
    split
    · exact ⟨r, rfl, hr⟩
    · exact ⟨c, rfl, by omega⟩

variable (env) in
lemma Calm.write (h : Calm ⟨c :: cs, d :: ds, g⟩) (hw : d.desc.write = true) : Calm ⟨cs, ds, pcReady env c d g⟩ := by
  refine drain_calm env _ ⟨by rw [numbers_match hw]; exact h.fair, h.heeded, ?_⟩
  rcases h.calm with h | h | h | ⟨hne, hnot⟩
  · exact .inl h
  · exact .inr (.inl h)
  · exact .inr (.inr (.inl (head_pcReadyInsert h)))
  · exact .inr (.inr (.inr ⟨hne, by rwa [numbers_match hw]⟩))

lemma Calm.skip (h : Calm ⟨c :: cs, d :: ds, g⟩) (hw : d.desc.write = false) : Calm ⟨cs, ds, g.free c⟩ := by
  refine ⟨by rw [← numbers_skip hw]; exact h.fair, h.heeded, ?_⟩
  rcases h.calm with h | h | h | ⟨hne, hnot⟩
  · exact .inl h
  · exact .inr (.inl h)
  · exact .inr (.inr (.inl h))
  · rw [numbers_skip hw] at hnot
    exact .inr (.inr (.inr ⟨hne, hnot⟩))

end

/-! ### Framing -/

/-- The descriptors behind the first have not waited too long. -/
def punctual (now : ℕ) (ds : List Desc) : Bool := ds.tail.all fun d => !waitedTooLong now (some d.created)

/-- While the queues are matched, with `rest` still to be framed, no write will be emitted after a fault. -/
structure Matching (now : ℕ) (rest : List Cmd) (y : Flow) : Prop where
  heeded : Heeded y.gate
  fair : Fair y.numbers
  settled : (y.gate.fault = none ∨ Shut y) ∨ Mismatch y ∨ y.descs = []
  punctual : rest ≠ [] → punctual now y.descs = true ∧
    (y.cmds = [] → ∀ d ∈ y.descs, waitedTooLong now (some d.created) = false)

/-- Between two commands that are framed. -/
structure Framing (now : ℕ) (rest : List Cmd) (y : Flow) : Prop where
  heeded : Heeded y.gate
  settled : rest ≠ [] →
    Fair y.numbers ∧ ((y.gate.fault = none ∨ Shut y) ∨ Mismatch y ∨ y.descs = [] ∨ y.gate.over)
  punctual : 2 ≤ rest.length → punctual now y.descs = true

section

variable {env : Env} {now : ℕ} {rest : List Cmd} {c : Cmd} {x : Flow}

lemma Framing.frame (h : Framing now (c :: rest) x) (hover : ¬ (x.frame c).gate.over) :
    Matching now rest (x.frame c) := by
  obtain ⟨hfair, hsettled⟩ := h.settled (cons_ne_nil _ _)
  refine ⟨h.heeded, hfair, ?_, fun hrest => ⟨h.punctual ?_, fun hnil => by simp [Flow.frame] at hnil⟩⟩
  · rcases hsettled with (hnone | hshut) | ⟨c', cs, d, ds, hc, hd, hm⟩ | hnil | hlt
    · exact .inl (.inl hnone)
    · exact .inl (.inr (hshut.congr id rfl rfl rfl))
    · exact .inr (.inl ⟨c', cs ++ [c], d, ds, by rw [Flow.frame, hc]; rfl, hd, hm⟩)
    · exact .inr (.inr hnil)
    · refine absurd ?_ hover
      have hbytes : pcMemoryMax < x.gate.pendingBytes + x.gate.recBytes := hlt
      show pcMemoryMax < x.gate.pendingBytes + c.data.length + x.gate.recBytes
      omega
  · have hpos := length_pos_iff.mpr hrest
    rw [length_cons]
    omega

lemma Matching.of_matches {d : Desc} {cs : List Cmd} {ds : List Desc} {g : Gate} (hm : c.matches d.desc = true)
    (h : Matching now rest ⟨c :: cs, d :: ds, g⟩) :
    Calm ⟨c :: cs, d :: ds, g⟩ ∧ (rest ≠ [] → ∀ d ∈ ds, waitedTooLong now (some d.created) = false) := by
  refine ⟨⟨h.fair, h.heeded, ?_⟩, fun hrest d hd => ?_⟩
  · rcases h.settled with hcalm | ⟨_, _, _, _, hc, hd, hmis⟩ | hnil
    · exact hcalm
    · cases hc
      cases hd
      rw [hm] at hmis
      cases hmis
    · cases hnil
  · have hall := all_eq_true.mp (h.punctual hrest).1 d hd
    simpa using hall

lemma Calm.matching (h : Calm x) (hlate : rest ≠ [] → ∀ d ∈ x.descs, waitedTooLong now (some d.created) = false) :
    Matching now rest x := by
  refine ⟨h.heeded, h.fair, .inl h.calm, fun hrest => ⟨all_eq_true.mpr fun d hd => ?_, fun _ => hlate hrest⟩⟩
  rw [hlate hrest d (mem_of_mem_tail hd)]
  rfl

variable (env) in
lemma framing_pumped : Pumped env (Framing env.now) (Matching env.now) where
  frame _ h hover := h.frame hover
  overflow _ h hover := by
    refine ⟨h.heeded, fun _ => ⟨(h.settled (cons_ne_nil _ _)).1, .inr (.inr (.inr hover))⟩, fun hlen => h.punctual ?_⟩
    rw [length_cons]
    omega
  skip hm hw h := by
    obtain ⟨hcalm, hlate⟩ := h.of_matches hm
    exact (hcalm.skip hw).matching hlate
  write hm hw h := by
    obtain ⟨hcalm, hlate⟩ := h.of_matches hm
    exact (hcalm.write env hw).matching hlate
  mismatch h hmis := ⟨h.heeded, h.fair, .inr (.inl hmis), h.punctual⟩
  matched h := by
    refine ⟨h.heeded, fun _ => ⟨h.fair, h.settled.imp_right (Or.imp_right .inl)⟩, fun hlen => ?_⟩
    exact (h.punctual (ne_nil_of_length_pos (by omega))).1
  late {_ x} h hlate := by
    refine ⟨h.heeded, fun hrest => ⟨h.fair, .inr (.inr (.inl ?_))⟩, fun hlen => ?_⟩
    · show x.descs = []
      rcases hlate with hnil | ⟨hnil, hover⟩
      · exact hnil
      · -- the overdue descriptor is not the first
        cases hds : x.descs with
        | nil => rfl
        | cons d ds =>
          have hok := (h.punctual hrest).2 hnil d (by simp [hds])
          rw [hds] at hover
          exact absurd hover (by simp [hok])
    · exact (h.punctual (ne_nil_of_length_pos (by omega))).1

lemma length_framed (now n : ℕ) (raws : List Bytes) : (framed now n raws).length = raws.length := by
  induction raws generalizing n with
  | nil => rfl
  | cons raw raws ih => rw [framed, length_cons, length_cons, ih]

end

/-! ### Steps -/

/-- The numbers of the writes. -/
def numbersOf (ds : List CommitDesc) : Multiset ℕ := ((writesOf ds).map (·.global) : List ℕ)

@[simp] lemma numbersOf_append (ds ds' : List CommitDesc) :
    numbersOf (ds ++ ds') = numbersOf ds + numbersOf ds' := by
  simp [numbersOf]

/-- The numbers that are ready or wait in a context. -/
def Proxy.inPlay (P : Proxy) : Multiset ℕ := (P.gate.ready.map (·.global) : List ℕ) + total Ctx.waiting P.ctxs

section

variable {env : Env} {P : Proxy} {k : ℕ} {c c' : Ctx} {g : Gate}

lemma inPlay_focus (hc : P.getCtx k = some c) :
    P.inPlay = (c.flow P.gate).numbers + total Ctx.waiting (P.ctxs.erase k) := by
  unfold Proxy.inPlay Flow.numbers
  rcases Proxy.getCtx_cases hc with hl | ⟨hl, rfl⟩
  · rw [total_of_lookup Ctx.waiting hl, add_assoc]
    rfl
  · rw [erase_eq_self hl, add_assoc]
    simp [Ctx.flow, waiting, writesOf]

lemma inPlay_put (P : Proxy) (k : ℕ) (c : Ctx) (g : Gate) :
    (P.put k (c, g)).inPlay = (c.flow g).numbers + total Ctx.waiting (P.ctxs.erase k) := by
  unfold Proxy.inPlay Flow.numbers
  simp only [Proxy.put, total_insert, add_assoc]
  rfl

lemma inPlay_put_le {m : Multiset ℕ} (hc : P.getCtx k = some c)
    (h : (c'.flow g).numbers ≤ (c.flow P.gate).numbers + m) : (P.put k (c', g)).inPlay ≤ P.inPlay + m := by
  rw [inPlay_put, inPlay_focus hc, add_right_comm]
  exact add_le_add_left h _

lemma inPlay_put_mono (hc : P.getCtx k = some c)
    (h : (c'.flow g).numbers ≤ (c.flow P.gate).numbers) : (P.put k (c', g)).inPlay ≤ P.inPlay := by
  rw [inPlay_put, inPlay_focus hc]
  exact add_le_add_left h _

lemma flow_le_inPlay (hc : P.getCtx k = some c) : (c.flow P.gate).numbers ≤ P.inPlay := by
  rw [inPlay_focus hc]
  exact Multiset.le_add_right _ _

lemma numbers_receive (c : Ctx) (g : Gate) (d : CommitDesc) (t : ℕ) :
    (Ctx.flow { c with descs := c.descs ++ [⟨d, t⟩] } g).numbers = (c.flow g).numbers + numbersOf [d] := by
  simp only [Flow.numbers, Ctx.flow, waiting_concat, add_assoc]
  rfl

lemma freeAll_ready (g : Gate) (cs : List Cmd) : (g.freeAll cs).ready = g.ready := by
  obtain ⟨n, hn⟩ := Gate.freeAll_eq g cs
  rw [hn]
  rfl

lemma numbers_dropped (hd : c'.descs = []) (hg : g.ready = P.gate.ready) :
    (c'.flow g).numbers ≤ (c.flow P.gate).numbers := by
  simp only [Flow.numbers, Ctx.flow, hg, hd]
  exact add_le_add_right (by simp [waiting, writesOf]) _

lemma inPlay_pcOnDesc (P : Proxy) (d : CommitDesc) : (pcOnDesc env P d).inPlay ≤ P.inPlay + numbersOf [d] := by
  have hcases := pcOnDesc_cases env P d
  generalize pcOnDesc env P d = R at hcases ⊢
  cases hcases with
  | faulty _ | full | ignored _ _ _ => exact Multiset.le_add_right _ _
  | @kept c hc => exact inPlay_put_le hc (numbers_receive c P.gate d env.now).le
  | @matched c _ hc _ _ =>
    exact inPlay_put_le hc ((numbers_pcTryMatch _ _).trans (numbers_receive c P.gate d env.now).le)

lemma inPlay_pcOnDescs (ds : List CommitDesc) (P : Proxy) :
    (ds.foldl (pcOnDesc env) P).inPlay ≤ P.inPlay + numbersOf ds := by
  induction ds generalizing P with
  | nil => simp
  | cons d ds ih =>
    rw [List.foldl_cons, ← singleton_append, numbersOf_append, ← add_assoc]
    exact (ih _).trans (add_le_add_left (inPlay_pcOnDesc P d) _)

lemma inPlay_proxyCommitOnRecord (P : Proxy) (k recvSeq : ℕ) (payload : Bytes) :
    (proxyCommitOnRecord env P k recvSeq payload).inPlay ≤ P.inPlay := by
  have hcases := proxyCommitOnRecord_cases env P k recvSeq payload
  generalize proxyCommitOnRecord env P k recvSeq payload = R at hcases ⊢
  cases hcases with
  | same | fault _ => exact le_rfl
  | full _ hc => exact inPlay_put_mono hc le_rfl
  | @framed c _ hc _ hb =>
    exact inPlay_put_mono hc (numbers_pcFrame (c := { c with lastRecv := some recvSeq, buf := c.buf ++ payload }) hb _)
  | matched _ hc _ _ => exact inPlay_put_mono hc (numbers_pcTryMatch _ _)

lemma inPlay_pcOnBaseline (P : Proxy) (k nextSeq : ℕ) : (pcOnBaseline env P k nextSeq).inPlay ≤ P.inPlay := by
  unfold pcOnBaseline
  split
  · exact le_rfl
  rename_i c hc
  exact inPlay_put_mono hc (((numbers_pcTryMatch _ _).trans (numbers_pcFrame (c := c.rebase nextSeq) rfl _)).trans
    (numbers_dropped rfl (freeAll_ready _ _)))

lemma inPlay_proxyStep (P : Proxy) (hh : Msg.hello ∉ i.2.msgs) :
    (proxyStep P i).inPlay ≤ P.inPlay + numbersOf i.2.descs := by
  obtain ⟨env, i⟩ := i
  cases i with
  | record k recvSeq payload =>
    exact (inPlay_proxyCommitOnRecord P k recvSeq payload).trans (Multiset.le_add_right _ _)
  | poll b =>
    obtain ⟨w, f, -, -, heq⟩ := proxyCommitPoll_eq env P b
    simp only [proxyStep, heq]
    exact Multiset.le_add_right P.inPlay _
  | msg m =>
    have hcases := pcProcessMsg_cases env P m
    simp only [proxyStep]
    generalize pcProcessMsg env P m = R at hcases ⊢
    cases hcases with
    | hello => simp [Input.msgs] at hh
    | baseline epoch k nextSeq =>
      exact (inPlay_pcOnBaseline _ k nextSeq).trans (Multiset.le_add_right _ _)
    | same _ | stale _ | long => exact Multiset.le_add_right P.inPlay _
    | ignore n _ hc => exact (inPlay_put_mono hc (numbers_dropped rfl rfl)).trans (Multiset.le_add_right _ _)
    | forget n _ hc =>
      refine le_trans ?_ (Multiset.le_add_right _ _)
      simp only [Proxy.inPlay, Gate.setPending_ready, total_of_lookup Ctx.waiting hc]
      exact add_le_add_right (Multiset.le_add_left _ _) _
    | @resume epoch marker _ =>
      obtain ⟨f, -, heq⟩ := pcOnResume_eq env marker P.gate
      rw [heq]
      exact Multiset.le_add_right P.inPlay _
    | @batch epoch ds _ =>
      rw [descs_batch]
      exact inPlay_pcOnDescs ds P

end

/-- A record that is framed while a descriptor behind the first has waited too long has at most one command, and
after a fault a RESUME finds nothing to emit. -/
def heeds (P : Proxy) (i : Env × Input) : Bool :=
  match i.2 with
  | .record k recvSeq payload =>
    P.gate.fault.isSome || (P.ctxs.lookup k).all fun c =>
      !c.takes recvSeq payload || !c.baseline || punctual i.1.now c.descs ||
        (pcFrameCtx (c.buf ++ payload)).1.length ≤ 1
  | .msg (.resume epoch marker) =>
    P.gate.fault.isNone || P.epochStale epoch || P.gate.recovery.all (·.global ≤ marker)
  | _ => true

section

variable {env : Env} {P : Proxy}

lemma Calm.of_inPlay {k : ℕ} {c : Ctx} (hf : Fair P.inPlay) (hc : P.getCtx k = some c)
    (hnone : P.gate.fault = none) (h : Heeded P.gate) : Calm (c.flow P.gate) :=
  ⟨hf.mono (flow_le_inPlay hc), h, .inl hnone⟩

lemma proxyCommitOnRecord_heeded {k recvSeq : ℕ} {payload : Bytes} (hf : Fair P.inPlay)
    (hs : heeds P (env, .record k recvSeq payload) = true) (h : Heeded P.gate) :
    Heeded (proxyCommitOnRecord env P k recvSeq payload).gate := by
  have hcases := proxyCommitOnRecord_cases env P k recvSeq payload
  generalize proxyCommitOnRecord env P k recvSeq payload = R at hcases ⊢
  cases hcases with
  | same | fault _ | full _ _ => exact h
  | @framed c hnone hc htakes hb =>
    have hcalm := Calm.of_inPlay hf hc hnone h
    -- a new context has no baseline
    rcases Proxy.getCtx_cases hc with hl | ⟨-, rfl⟩
    swap
    · cases hb
    have hcase : punctual env.now c.descs = true ∨ (pcFrameCtx (c.buf ++ payload)).1.length ≤ 1 := by
      simpa [heeds, hnone, hl, htakes, hb] using hs
    refine ((framing_pumped env).pcFrame (c := { c with lastRecv := some recvSeq, buf := c.buf ++ payload }) hb
      ⟨h, fun _ => ⟨hcalm.fair, .inl hcalm.calm⟩, fun hlen => ?_⟩).heeded
    rw [length_framed] at hlen
    exact hcase.resolve_right (Nat.not_le.mpr hlen)
  | matched hnone hc _ _ =>
    have hcalm := Calm.of_inPlay hf hc hnone h
    exact ((framing_pumped env).tryMatch (r := []) (hcalm.matching fun hrest => absurd rfl hrest)).heeded

lemma pcOnDesc_heeded {d : CommitDesc} (hf : Fair (P.inPlay + numbersOf [d])) (h : Heeded P.gate) :
    Heeded (pcOnDesc env P d).gate := by
  have hcases := pcOnDesc_cases env P d
  generalize pcOnDesc env P d = R at hcases ⊢
  cases hcases with
  | faulty _ | full | ignored _ _ _ | kept _ => exact h
  | @matched c hnone hc _ _ =>
    have hle : (Ctx.flow { c with descs := c.descs ++ [⟨d, env.now⟩] } P.gate).numbers ≤
        P.inPlay + numbersOf [d] := by
      rw [numbers_receive]
      exact add_le_add_left (flow_le_inPlay hc) _
    have hcalm : Calm (Ctx.flow { c with descs := c.descs ++ [⟨d, env.now⟩] } P.gate) :=
      ⟨hf.mono hle, h, .inl hnone⟩
    exact ((framing_pumped env).tryMatch (r := []) (hcalm.matching fun hrest => absurd rfl hrest)).heeded

lemma pcOnDescs_heeded (ds : List CommitDesc) (hf : Fair (P.inPlay + numbersOf ds)) (h : Heeded P.gate) :
    Heeded (ds.foldl (pcOnDesc env) P).gate := by
  induction ds generalizing P with
  | nil => exact h
  | cons d ds ih =>
    rw [← singleton_append, numbersOf_append, ← add_assoc] at hf
    exact ih (hf.mono (add_le_add_left (inPlay_pcOnDesc P d) _))
      (pcOnDesc_heeded (hf.mono (Multiset.le_add_right _ _)) h)

lemma freeAll_calls (g : Gate) (cs : List Cmd) : (g.freeAll cs).calls = g.calls := by
  obtain ⟨n, hn⟩ := Gate.freeAll_eq g cs
  rw [hn]
  rfl

lemma pcOnBaseline_calls (k nextSeq : ℕ) : (pcOnBaseline env P k nextSeq).gate.calls = P.gate.calls := by
  unfold pcOnBaseline
  split
  · rfl
  rename_i c _
  have hframed := rebase_quiet env c nextSeq (P.gate.freeAll c.cmds)
  have hmatched : Flow.Quiet _ _ := (quiet_pumped env _).tryMatch (r := []) hframed
  exact hmatched.calls.trans (freeAll_calls _ _)

lemma pcOnResume_heeded {marker : ℕ} {g : Gate} (hg : g.fault = none ∨ ∀ r ∈ g.recovery, r.global ≤ marker)
    (h : Heeded g) : Heeded (pcOnResume env marker g) := by
  obtain ⟨f, -, heq⟩ := pcOnResume_eq env marker g
  intro x hx
  rw [heq, mem_append] at hx
  rcases hx with hx | hx
  · exact h x hx
  · obtain ⟨r, hr, rfl⟩ := mem_map.mp hx
    refine hg.resolve_right fun hle => ?_
    exact absurd (resumeLoop_above hr) (not_lt.mpr (hle r ((resumeLoop_sublist env marker g.recovery).subset hr)))

lemma proxyStep_heeded (hh : Msg.hello ∉ i.2.msgs) (hf : Fair (P.inPlay + numbersOf i.2.descs))
    (hs : heeds P i = true) (h : Heeded P.gate) : Heeded (proxyStep P i).gate := by
  obtain ⟨env, i⟩ := i
  cases i with
  | record k recvSeq payload => exact proxyCommitOnRecord_heeded (hf.mono (Multiset.le_add_right _ _)) hs h
  | poll b =>
    obtain ⟨w, f, -, -, heq⟩ := proxyCommitPoll_eq env P b
    simp only [proxyStep, heq]
    exact h
  | msg m =>
    have hcases := pcProcessMsg_cases env P m
    simp only [proxyStep]
    generalize pcProcessMsg env P m = R at hcases ⊢
    cases hcases with
    | hello => simp [Input.msgs] at hh
    | baseline epoch k nextSeq =>
      intro x hx
      rw [pcOnBaseline_calls] at hx
      exact h x hx
    | same _ | ignore _ _ _ | forget _ _ _ | stale _ | long => exact h
    | resume hstale => exact pcOnResume_heeded (by simpa [heeds, hstale] using hs) h
    | batch _ =>
      rw [descs_batch] at hf
      exact pcOnDescs_heeded _ hf h

lemma run_heeded {is : List (Env × Input)} (hh : Msg.hello ∉ msgsOf is)
    (hf : Fair (P.inPlay + numbersOf (descsOf (msgsOf is))))
    (hs : GuardedRun proxyStep (fun P i => heeds P i = true) P is) (h : Heeded P.gate) :
    Heeded (is.foldl proxyStep P).gate := by
  induction is generalizing P with
  | nil => exact h
  | cons i is ih =>
    rw [descsOf_msgsOf_cons, numbersOf_append, ← add_assoc] at hf
    simp only [msgsOf, flatMap_cons, mem_append, not_or] at hh
    exact ih hh.2 (hf.mono (add_le_add_left (inPlay_proxyStep P hh.1) _)) hs.2
      (proxyStep_heeded hh.1 (hf.mono (Multiset.le_add_right _ _)) hs.1 h)

end

lemma fair_of_distinct {W : List CommitDesc} (h : Distinct (writesOf W)) : Fair (numbersOf W) := by
  refine ⟨Multiset.coe_nodup.mpr h.nodup, fun h0 => ?_⟩
  obtain ⟨d, hd, hg⟩ := mem_map.mp (Multiset.mem_coe.mp h0)
  exact absurd hg (Nat.ne_of_gt (h.pos d hd))

/-- The calls of `emit` since the last purge. -/
def runCalls (P : Proxy) (is : List (Env × Input)) : List Call := (is.foldl proxyStep P).gate.calls

/-- **The commit gate fails closed**: from a purged state up to the next purge, in any order of records, messages
and polls in which every step heeds faults, `emit` is never called once a fault was raised. -/
theorem gate_fails_closed (buffering : Bool) (epoch : ℕ) (is : List (Env × Input)) (hh : Msg.hello ∉ msgsOf is)
    (hW : Distinct (writesOf (descsOf (msgsOf is))))
    (hs : GuardedRun proxyStep (fun P i => heeds P i = true) (Proxy.purged buffering epoch) is) :
    ∀ call ∈ runCalls (Proxy.purged buffering epoch) is, call.fault = none := by
  refine run_heeded hh ?_ hs nofun
  have hzero : (Proxy.purged buffering epoch).inPlay = 0 := rfl
  rw [hzero, zero_add]
  exact fair_of_distinct hW

/-- A descriptor of the write that is the command `seq` of connection 1. -/
def writeDesc (seq : ℕ) (raw : Bytes) : CommitDesc := ⟨1, seq, seq, kvsCmdCrc64 raw, raw.length, true⟩

/-- Records of a connection are missing. -/
def missedRecord : List (Env × Input) :=
  calmly [.msg (.baseline 7 1 1), .record 1 0 (str "SET a 1\n"),
    .msg (.batch 7 [writeDesc 1 (str "SET a 1\n")]), .record 1 5 (str "SET b 2\n")]

/-- The record comes after the timeout. -/
def lateRecord : List (Env × Input) :=
  calmly [.msg (.baseline 7 1 1),
    .msg (.batch 7 [writeDesc 1 (str "SET a 1\n"), writeDesc 2 (str "SET b 2\n")])] ++
  [(⟨3000, fun _ => true⟩, .record 1 0 (str "SET a 1\nSET b 2\n"))]

theorem gate_fails_closed_missed_record :
    ((missedRecord ++ calmly [.msg (.resume 7 1), .poll false]).foldl proxyStep (Proxy.purged true 0)).gate.fault =
        some 3 ∧
      ∀ call ∈ runCalls (Proxy.purged true 0) (missedRecord ++ calmly [.msg (.resume 7 1), .poll false]),
        call.fault = none :=
  ⟨by decide, gate_fails_closed true 0 _ (by decide) ⟨by decide, by decide⟩ (by decide)⟩

/-- A RESUME after a fault emits the recovery buffer, and so is a command framed after a fault in the same record.
-/
theorem gate_emits_after_fault :
    (⟨some 3, ⟨1, str "SET a 1\n"⟩⟩ : Call) ∈
        runCalls (Proxy.purged true 0) (missedRecord ++ calmly [.msg (.resume 7 0)]) ∧
      (⟨some 1, ⟨2, str "SET b 2\n"⟩⟩ : Call) ∈ runCalls (Proxy.purged false 0) lateRecord := by
  decide

end PocketKv.CommitGate
