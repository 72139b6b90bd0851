import PocketKv.CommitGate.Session

/-!
# RESUME
-/

namespace PocketKv.CommitGate

open Library Relation Resp List

variable {g : Gate} {x y : Flow} {m : ℕ} {r : Rec}

/-! ### What was emitted, and what will be -/

/-- What was handed over was emitted, is in the recovery buffer, or was dropped up to the marker. -/
structure Gate.LedgerOk (marker : ℕ) (g : Gate) : Prop where
  sublist : (g.emitted ++ g.recovery).Sublist g.handed
  full : g.fault = none → ∀ r ∈ g.handed, marker < r.global → r ∈ g.emitted ∨ r ∈ g.recovery
  recovery : ∀ r ∈ g.recovery, r.data ≠ []
  ready : ∀ c ∈ g.ready, c.data ≠ []

/-- The ledger of the gate is right. -/
structure Flow.LedgerOk (marker : ℕ) (x : Flow) : Prop where
  gate : x.gate.LedgerOk marker
  cmds : ∀ c ∈ x.cmds, c.data ≠ []

section

variable {env : Env} {S : ℕ → Bool} {marker : ℕ}

lemma Gate.LedgerOk.diverts_of_mem (h : g.LedgerOk marker) (hr : r ∈ g.recovery) : g.diverts = true := by
  have hpos : 0 < r.data.length := length_pos_iff.mpr (h.recovery r hr)
  have hle : r.data.length ≤ g.recBytes := le_sum_of_mem (mem_map_of_mem hr)
  exact Gate.diverts_iff.mpr (.inr (.inr (by omega)))

lemma Gate.LedgerOk.recovery_eq_nil (h : g.LedgerOk marker) (hd : g.diverts = false) : g.recovery = [] := by
  refine eq_nil_iff_forall_not_mem.mpr fun r hr => ?_
  simp [h.diverts_of_mem hr] at hd

lemma pcEmitCmd_ledger (env : Env) {c : Cmd} {rs : List Cmd} (h : g.LedgerOk marker)
    (hr : g.ready = c :: rs) : (pcEmitCmd env c (g.setReady rs)).1.LedgerOk marker := by
  have hc : c.data ≠ [] := h.ready c (by simp [hr])
  have hrs : ∀ c' ∈ rs, c'.data ≠ [] := fun c' hc' => h.ready c' (by simp [hr, hc'])
  -- The write is the last one handed over, in all four cases.
  have hto : ((g.setReady rs).hand c.toRec).toRecovery c.toRec |>.LedgerOk marker := by
    refine ⟨?_, fun hn r hr' hm => ?_, fun r hr' => ?_, hrs⟩
    · simpa [← append_assoc] using h.sublist.append (List.Sublist.refl [c.toRec])
    · simp only [Gate.toRecovery_handed, Gate.hand_handed, Gate.setReady_handed, mem_append, mem_singleton] at hr'
      rcases hr' with hr' | rfl
      · exact (h.full hn r hr' hm).imp_right fun hr => mem_append_left _ hr
      · exact .inr (by simp)
    · simp only [Gate.toRecovery_recovery, Gate.hand_recovery, Gate.setReady_recovery, mem_append,
        mem_singleton] at hr'
      rcases hr' with hr' | rfl
      · exact h.recovery r hr'
      · exact hc
  rcases pcEmitCmd_cases env c (g.setReady rs) with ⟨-, he | he⟩ | ⟨hd, he | he⟩ <;> rw [he]
  · exact hto
  · exact ⟨hto.sublist, Gate.of_raise, hto.recovery, hto.ready⟩
  · have hnil : g.recovery = [] := h.recovery_eq_nil hd
    refine ⟨?_, fun hn r hr' hm => ?_, ?_, hrs⟩
    · have := h.sublist
      simp only [hnil, append_nil] at this
      simpa [hnil] using this.append (List.Sublist.refl [c.toRec])
    · simp only [Gate.toReplica_handed, Gate.call_handed, Gate.hand_handed, Gate.setReady_handed, mem_append,
        mem_singleton] at hr'
      rcases hr' with hr' | rfl
      · exact (h.full hn r hr' hm).imp_left fun hr => mem_append_left _ hr
      · exact .inl (by simp)
    · exact h.recovery
  · refine ⟨?_, Gate.of_raise, h.recovery, hrs⟩
    exact h.sublist.trans (sublist_append_left _ _)

lemma Move.ledgerOk (hm : Move env S x y) (h : x.LedgerOk marker) : y.LedgerOk marker := by
  obtain ⟨hg, hcmds⟩ := h
  cases hm with
  | frame c hc =>
    refine ⟨hg, fun c' hc' => ?_⟩
    rcases mem_append.mp hc' with hc' | hc'
    · exact hcmds c' hc'
    · exact mem_singleton.mp hc' ▸ hc
  | count _ => exact ⟨{ hg with }, hcmds⟩
  | fault _ =>
    exact ⟨⟨hg.sublist, Gate.of_raise, hg.recovery, hg.ready⟩, hcmds⟩
  | skip _ => exact ⟨hg, fun c hc => hcmds c (.tail _ hc)⟩
  | @first _ _ _ c _ _ _ _ _ _ =>
    refine ⟨⟨hg.sublist, hg.full, hg.recovery, fun c' hc' => ?_⟩, fun c hc => hcmds c (.tail _ hc)⟩
    rw [mem_singleton.mp hc']
    exact hcmds c (.head _)
  | @ready _ _ _ c _ _ _ _ =>
    refine ⟨⟨hg.sublist, hg.full, hg.recovery, fun c' hc' => ?_⟩, fun c hc => hcmds c (.tail _ hc)⟩
    rcases mem_cons.mp ((pcReadyInsert_perm _ _).mem_iff.mp hc') with rfl | hc'
    · exact hcmds c (.head _)
    · exact hg.ready c' hc'
  | pass hr _ _ =>
    have h := pcEmitCmd_ledger env hg hr
    exact ⟨{ h with }, hcmds⟩
  | stop hr _ _ => exact ⟨pcEmitCmd_ledger env hg hr, hcmds⟩

lemma Moves.ledgerOk (hm : Moves env S x y) (h : x.LedgerOk marker) : y.LedgerOk marker := by
  induction hm with
  | refl => exact h
  | tail _ hm ih => exact hm.ledgerOk ih

end

/-- The ledger of the gate is right. -/
structure Proxy.LedgerOk (marker : ℕ) (P : Proxy) : Prop where
  gate : P.gate.LedgerOk marker
  cmds : ∀ e ∈ P.ctxs.entries, ∀ c ∈ e.2.cmds, c.data ≠ []

section

variable {env : Env} {S : ℕ → Bool} {marker : ℕ} {P Q : Proxy} {ds : List CommitDesc} {rs : List Rec}

lemma Gate.LedgerOk.congr {g' : Gate} (h : g.LedgerOk marker) (he : g'.emitted = g.emitted)
    (hrec : g'.recovery = g.recovery) (hh : g'.handed = g.handed) (hr : g'.ready = g.ready)
    (hf : g'.fault = none → g.fault = none) : g'.LedgerOk marker := by
  refine ⟨by rw [he, hrec, hh]; exact h.sublist, fun hn => ?_, hrec ▸ h.recovery, hr ▸ h.ready⟩
  rw [he, hrec, hh]
  exact h.full (hf hn)

lemma Proxy.LedgerOk.focus {k : ℕ} {c : Ctx} (h : P.LedgerOk marker) (hc : P.getCtx k = some c) :
    (c.flow P.gate).LedgerOk marker := by
  refine ⟨h.gate, ?_⟩
  rcases Proxy.getCtx_cases hc with hl | ⟨-, rfl⟩
  · exact of_lookup (p := fun c : Ctx => ∀ x ∈ c.cmds, x.data ≠ []) hl h.cmds
  · exact fun _ hx => absurd hx not_mem_nil

lemma Proxy.LedgerOk.put {k : ℕ} {c : Ctx} (h : P.LedgerOk marker)
    (hc : (c.flow g).LedgerOk marker) : (P.put k (c, g)).LedgerOk marker :=
  ⟨hc.gate, forall_insert (p := fun c : Ctx => ∀ x ∈ c.cmds, x.data ≠ []) hc.cmds h.cmds⟩

lemma Effect.ledgerOk (e : Effect env S P ds Q) (h : P.LedgerOk marker) : Q.LedgerOk marker := by
  cases e with
  | flow hc hm _ => exact h.put (hm.ledgerOk (h.focus hc))
  | receive hc => exact h.put ⟨h.gate, (h.focus hc).cmds⟩
  | miss _ => exact h
  | drop m _ _ hcmds _ =>
    refine h.put ⟨h.gate.congr rfl rfl rfl rfl id, fun x hx => ?_⟩
    simp [Ctx.flow, hcmds] at hx
  | forget m _ _ =>
    exact ⟨h.gate.congr rfl rfl rfl rfl id, forall_erase (p := fun c : Ctx => ∀ x ∈ c.cmds, x.data ≠ []) h.cmds⟩
  | epoch _ => exact ⟨h.gate, h.cmds⟩
  | fault _ => exact ⟨h.gate.congr rfl rfl rfl rfl Gate.of_raise, h.cmds⟩

lemma Effects.ledgerOk (e : Effects env S P ds Q) (h : P.LedgerOk marker) : Q.LedgerOk marker := by
  induction e with
  | refl => exact h
  | tail _ e ih => exact e.ledgerOk ih

/-! ### The marker -/

lemma pcOnResume_ledger (h : g.LedgerOk marker) (hm : m ≤ marker) : (pcOnResume env m g).LedgerOk marker := by
  have hsub : (g.emitted ++ (resumeLoop env m g.recovery).1.filter env.emit).Sublist g.handed :=
    ((List.Sublist.refl _).append (filter_sublist.trans (resumeLoop_sublist env m g.recovery))).trans h.sublist
  obtain ⟨f, hf, heq⟩ := pcOnResume_eq env m g
  rw [heq]
  refine ⟨by simpa using hsub, fun hn r hr hmr => .inl ?_, by simp, h.ready⟩
  obtain ⟨hnone, hok⟩ := hf hn
  rcases h.full hnone r hr hmr with hr | hr
  · exact mem_append_left _ hr
  · exact mem_append_right _ (resumeLoop_complete hok hr (by omega))

end

/-- All writes up to the marker, of a session that begins after `n`, have been handed over. -/
def Gate.covered (n marker : ℕ) (g : Gate) : Bool := marker ≤ n || marker < g.nextGlobal

/-- The write cannot be emitted. -/
def Gate.closed (n marker : ℕ) (g : Gate) : Bool := g.diverts || g.covered n marker

/-- Since `E`, only writes above the marker were emitted. -/
def Gate.Since (marker : ℕ) (E : List Rec) (g : Gate) : Prop :=
  ∃ late, g.emitted = E ++ late ∧ ∀ r ∈ late, marker < r.global

/-- The step opens the gate only once all writes up to the marker have been handed over; after a fault anything
goes. -/
def settles (n marker : ℕ) (P : Proxy) (i : Env × Input) : Bool :=
  P.gate.fault.isSome ||
    match i.2 with
    | .msg (.resume epoch _) => P.epochStale epoch || P.gate.buffering || P.gate.covered n marker
    | .poll buffering =>
      buffering || P.gate.waitResume.isSome || 0 < P.gate.recBytes || P.gate.covered n marker
    | _ => true

section

variable {env : Env} {S : ℕ → Bool} {n marker : ℕ} {E : List Rec} {P Q : Proxy} {ds : List CommitDesc}

lemma Gate.closed_iff : g.closed n marker = true ↔ g.diverts = true ∨ marker ≤ n ∨ marker < g.nextGlobal := by
  simp [Gate.closed, Gate.covered]

lemma pcEmitCmd_closed (env : Env) {c : Cmd} (hn : c.global = g.nextGlobal) (hcn : n < c.global)
    (hc : g.closed n marker = true) (hs : g.Since marker E) :
    (pcEmitCmd env c g).1.closed n marker = true ∧ (pcEmitCmd env c g).1.Since marker E := by
  rw [Gate.closed_iff] at hc ⊢
  rcases pcEmitCmd_cases env c g with ⟨hd, he | he⟩ | ⟨hd, he | he⟩ <;> rw [he]
  · exact ⟨.inl (Gate.diverts_toRecovery hd _), hs⟩
  · exact ⟨.inl (Gate.diverts_toRecovery hd _), hs⟩
  · have hcov : marker ≤ n ∨ marker < g.nextGlobal := by simpa [hd] using hc
    refine ⟨.inr hcov, ?_⟩
    obtain ⟨late, hlate, habove⟩ := hs
    refine ⟨late ++ [c.toRec], by simp [hlate], fun r hr => ?_⟩
    rcases mem_append.mp hr with hr | hr
    · exact habove r hr
    · have hr : r.global = c.global := by rw [mem_singleton.mp hr, Cmd.toRec]
      omega
  · exact ⟨hc, hs⟩

lemma Move.closed (hm : Move env S x y) (hnum : x.Numbered n)
    (hc : x.gate.closed n marker = true) (hs : x.gate.Since marker E) :
    y.gate.closed n marker = true ∧ y.gate.Since marker E := by
  cases hm with
  | @first _ _ g _ d _ _ h0 _ _ =>
    refine ⟨?_, hs⟩
    simp only [Gate.closed_iff, h0] at hc ⊢
    exact hc.imp_right fun h => h.imp_right fun h => by omega
  | @pass _ _ g c rs hr hn _ =>
    obtain ⟨hc', hs'⟩ := pcEmitCmd_closed env (g := g.setReady rs) hn (hnum.ready c (by simp [hr])) hc hs
    refine ⟨?_, hs'⟩
    rw [Gate.closed_iff] at hc' ⊢
    exact hc'.imp_right fun h => h.imp_right fun h => Nat.lt_succ_of_lt h
  | @stop _ _ g c rs hr hn _ =>
    exact pcEmitCmd_closed env (g := g.setReady rs) hn (hnum.ready c (by simp [hr])) hc hs
  | _ => exact ⟨hc, hs⟩

lemma Moves.closed (hm : Moves env S x y) (hnum : x.Numbered n)
    (hc : x.gate.closed n marker = true) (hs : x.gate.Since marker E) :
    y.gate.closed n marker = true ∧ y.gate.Since marker E := by
  induction hm with
  | refl => exact ⟨hc, hs⟩
  | tail hms hm ih => exact hm.closed (Moves.numbered hms hnum) ih.1 ih.2

/-- Since `E`, only writes above the marker were emitted, and without a fault it will stay so. -/
structure Gate.Quarantined (n marker : ℕ) (E : List Rec) (g : Gate) : Prop where
  since : g.Since marker E
  closed : g.fault = none → g.closed n marker = true

lemma Effect.quarantined (e : Effect env S P ds Q) (hnum : P.Numbered n)
    (h : P.gate.Quarantined n marker E) : Q.gate.Quarantined n marker E := by
  cases e with
  | flow hc hm hq =>
    rcases hq with hnone | hq
    · obtain ⟨hclosed, hsince⟩ := hm.closed (hnum.focus hc) (h.closed hnone) h.since
      exact ⟨hsince, fun _ => hclosed⟩
    · by_cases hnone : P.gate.fault = none
      · obtain ⟨hclosed, hsince⟩ := hm.closed (hnum.focus hc) (h.closed hnone) h.since
        exact ⟨hsince, fun _ => hclosed⟩
      · refine ⟨?_, fun hn => absurd (hm.fault hn) hnone⟩
        obtain ⟨late, hlate, habove⟩ := h.since
        exact ⟨late, hq.trans hlate, habove⟩
  | receive _ => exact h
  | miss _ => exact h
  | drop _ _ _ _ _ | forget _ _ _ => exact ⟨h.since, h.closed⟩
  | epoch _ => exact h
  | fault _ => exact ⟨h.since, Gate.of_raise⟩

lemma Effects.quarantined (e : Effects env S P ds Q) (hds : ∀ d ∈ ds, d.write = true → n < d.global)
    (hnum : P.Numbered n) (h : P.gate.Quarantined n marker E) : Q.gate.Quarantined n marker E := by
  induction e with
  | refl => exact h
  | tail es e ih =>
    have hds' := fun d hd => hds d (mem_append_left _ hd)
    exact e.quarantined (es.numbered hds' hnum) (ih hds')

lemma pcOnResume_quarantined (h : g.Quarantined n marker E)
    (hs : g.fault = none → g.buffering = true ∨ g.covered n marker = true) :
    (pcOnResume env marker g).Quarantined n marker E := by
  have hsince : ∃ late, g.emitted ++ (resumeLoop env marker g.recovery).1.filter env.emit = E ++ late ∧
      ∀ r ∈ late, marker < r.global := by
    obtain ⟨late, hlate, habove⟩ := h.since
    refine ⟨late ++ (resumeLoop env marker g.recovery).1.filter env.emit, by rw [hlate, append_assoc],
      fun r hr => ?_⟩
    rcases mem_append.mp hr with hr | hr
    · exact habove r hr
    · exact resumeLoop_above (mem_of_mem_filter hr)
  obtain ⟨f, hf, heq⟩ := pcOnResume_eq env marker g
  rw [heq]
  refine ⟨hsince, fun hn => ?_⟩
  rcases hs (hf hn).1 with hb | hcov
  · simp [Gate.closed, Gate.diverts, hb]
  · rw [Gate.closed, Bool.or_eq_true]
    exact .inr hcov

lemma poll_closed {b : Bool} {w f : Option ℕ} (h : g.Quarantined n marker E) (hf : f = none → g.fault = none)
    (hw : w = g.waitResume ∨ g.waitResume = none ∧ 0 < g.recBytes)
    (hs : g.fault = none → b = true ∨ g.waitResume.isSome = true ∨ 0 < g.recBytes ∨ g.covered n marker = true) :
    Gate.Quarantined n marker E { g with buffering := b, waitResume := w, fault := f } := by
  refine ⟨h.since, fun hn => ?_⟩
  rw [Gate.closed, Bool.or_eq_true, Gate.diverts_iff]
  rcases hs (hf hn) with hb | hwait | hr | hc
  · exact .inl (.inl hb)
  · rcases hw with rfl | ⟨-, hr⟩
    · exact .inl (.inr (.inl hwait))
    · exact .inl (.inr (.inr hr))
  · exact .inl (.inr (.inr hr))
  · exact .inr hc

end

/-! ### Steps and runs -/

/-- The invariant of the runs: numbers above `n`, and the ledger. -/
structure Proxy.Tracked (n marker : ℕ) (P : Proxy) : Prop where
  /-- The writes have numbers above `n`. -/
  numbered : P.Numbered n
  ledger : P.LedgerOk marker

section

variable {n marker : ℕ} {E : List Rec} {P : Proxy} {i : Env × Input} {is : List (Env × Input)}

lemma Proxy.Numbered.setGate (h : P.Numbered n) (hr : g.ready = P.gate.ready)
    (hn : g.nextGlobal = P.gate.nextGlobal) : ({ P with gate := g } : Proxy).Numbered n := by
  have hfresh : g.nextGlobal = 0 → g.ready = [] := by
    rw [hr, hn]
    exact h.gate.fresh
  refine ⟨⟨hr ▸ h.gate.ready, h.gate.descs, hfresh⟩, fun e he => ?_⟩
  exact ⟨hr ▸ h.gate.ready, (h.descs e he).descs, hfresh⟩

lemma pcOnResume_tracked {env : Env} (h : P.Tracked n marker) (hm : m ≤ marker) :
    ({ P with gate := pcOnResume env m P.gate } : Proxy).Tracked n marker := by
  refine ⟨h.numbered.setGate ?_ ?_, pcOnResume_ledger h.ledger.gate hm, h.ledger.cmds⟩ <;>
  · obtain ⟨f, -, heq⟩ := pcOnResume_eq env m P.gate
    rw [heq]

lemma proxyStep_tracked (hh : Msg.hello ∉ i.2.msgs)
    (hds : ∀ d ∈ i.2.descs, d.write = true → n < d.global)
    (hm : ∀ epoch m, Msg.resume epoch m ∈ i.2.msgs → m ≤ marker) (hk : keeps P i = true)
    (h : P.Tracked n marker) : (proxyStep P i).Tracked n marker := by
  rcases proxyStep_cases P hh with hp | ⟨b, w, f, hi, hf, -, heq⟩ | ⟨epoch, m, hi, hg⟩
  · have he := proxyStep_effects hp h.numbered hds (starts_any P i) hk
    exact ⟨he.numbered hds h.numbered, he.ledgerOk h.ledger⟩
  · rw [heq]
    exact ⟨h.numbered.setGate rfl rfl, h.ledger.gate.congr rfl rfl rfl rfl hf, h.ledger.cmds⟩
  · rcases hg with ⟨-, heq⟩ | ⟨-, heq⟩ <;> rw [heq]
    · exact h
    · exact pcOnResume_tracked h (hm epoch m (by rw [hi]; exact .head _))

lemma proxyStep_quarantined (hh : Msg.hello ∉ i.2.msgs)
    (hds : ∀ d ∈ i.2.descs, d.write = true → n < d.global)
    (hm : ∀ epoch m, Msg.resume epoch m ∈ i.2.msgs → m = marker) (hk : keeps P i = true)
    (hs : settles n marker P i = true) (hnum : P.Numbered n) (h : P.gate.Quarantined n marker E) :
    (proxyStep P i).gate.Quarantined n marker E := by
  rcases proxyStep_cases P hh with hp | ⟨b, w, f, hi, hf, hw, heq⟩ | ⟨epoch, m, hi, hg⟩
  · exact (proxyStep_effects hp hnum hds (starts_any P i) hk).quarantined hds hnum h
  · rw [heq]
    refine poll_closed h hf hw fun hn => ?_
    simpa [settles, hi, hn, or_assoc] using hs
  · obtain rfl : m = marker := hm epoch m (by rw [hi]; exact .head _)
    rcases hg with ⟨-, heq⟩ | ⟨hstale, heq⟩ <;> rw [heq]
    · exact h
    · refine pcOnResume_quarantined h fun hn => ?_
      simpa [settles, hi, hn, hstale] using hs

end

/-- The channel stays up, the writes have numbers above `n`, and every RESUME has a marker in `R`. -/
structure Inputs (n : ℕ) (R : ℕ → Prop) (is : List (Env × Input)) : Prop where
  noHello : Msg.hello ∉ msgsOf is
  /-- The writes have numbers above `n`. -/
  above : ∀ d ∈ descsOf (msgsOf is), d.write = true → n < d.global
  markers : ∀ epoch m, Msg.resume epoch m ∈ msgsOf is → R m

section

variable {n marker : ℕ} {R : ℕ → Prop} {E : List Rec} {P : Proxy} {i : Env × Input} {is : List (Env × Input)}

lemma Inputs.of_cons (h : Inputs n R (i :: is)) : Inputs n R [i] ∧ Inputs n R is := by
  obtain ⟨hh, ha, hm⟩ := h
  simp only [msgsOf, descsOf, flatMap_cons, flatMap_append, mem_append, not_or] at hh ha hm
  refine ⟨⟨?_, fun d hd => ha d (.inl ?_), fun e m hd => hm e m (.inl ?_)⟩,
    ⟨hh.2, fun d hd => ha d (.inr hd), fun e m hd => hm e m (.inr hd)⟩⟩
  · simpa [msgsOf] using hh.1
  · simpa [msgsOf, descsOf] using hd
  · simpa [msgsOf] using hd

lemma run_tracked (hi : Inputs n (· ≤ marker) is)
    (hk : GuardedRun proxyStep (fun P i => keeps P i = true) P is) (h : P.Tracked n marker) :
    (is.foldl proxyStep P).Tracked n marker := by
  induction is generalizing P with
  | nil => exact h
  | cons i is ih =>
    obtain ⟨⟨hh, ha, hm⟩, his⟩ := hi.of_cons
    simp only [msgsOf, flatMap_singleton] at hh ha hm
    exact ih his hk.2 (proxyStep_tracked hh ha hm hk.1 h)

lemma run_quarantined (hi : Inputs n (· = marker) is)
    (hk : GuardedRun proxyStep (fun P i => keeps P i = true ∧ settles n marker P i = true) P is)
    (h : P.Tracked n marker) (hq : P.gate.Quarantined n marker E) :
    (is.foldl proxyStep P).Tracked n marker ∧ (is.foldl proxyStep P).gate.Quarantined n marker E := by
  induction is generalizing P with
  | nil => exact ⟨h, hq⟩
  | cons i is ih =>
    obtain ⟨⟨hh, ha, hm⟩, his⟩ := hi.of_cons
    simp only [msgsOf, flatMap_singleton] at hh ha hm
    exact ih his hk.2 (proxyStep_tracked hh ha (fun e m h => (hm e m h).le) hk.1.1 h)
      (proxyStep_quarantined hh ha hm hk.1.1 hk.1.2 h.numbered hq)

end

/-! ### RESUME is exact -/

lemma purged_tracked (n marker : ℕ) (buffering : Bool) (epoch : ℕ) :
    (Proxy.purged buffering epoch).Tracked n marker := by
  refine ⟨⟨⟨?_, ?_, fun _ => rfl⟩, ?_⟩, ⟨.slnil, fun _ => ?_, ?_, ?_⟩, ?_⟩ <;>
    intro x hx <;> exact absurd hx not_mem_nil

lemma poll_quarantined (n marker : ℕ) (env : Env) (P : Proxy) :
    (proxyStep P (env, .poll true)).gate.Quarantined n marker P.gate.emitted := by
  obtain ⟨w, f, -, -, heq⟩ := proxyCommitPoll_eq env P true
  simp only [proxyStep, heq]
  exact ⟨⟨[], by simp, by simp⟩, fun _ => by simp [Gate.closed, Gate.diverts]⟩

/-- The write is emitted, or will be. -/
inductive Proxy.Delivers (P : Proxy) (d : CommitDesc) : Prop where
  | emitted (r : Rec) (hr : r ∈ P.gate.emitted) (hd : d.Describes r)
  | recovery (r : Rec) (hr : r ∈ P.gate.recovery) (hd : d.Describes r) (hg : P.gate.diverts = true)
  | ready (c : Cmd) (hc : c ∈ P.gate.ready) (hd : d.Describes c.toRec)
  | waits (k : ℕ) (c : Ctx) (x : Desc) (hk : P.ctxs.lookup k = some c) (hx : x ∈ c.descs) (hd : x.desc = d)

lemma Gate.LedgerOk.delivers {marker : ℕ} {P : Proxy} (h : P.gate.LedgerOk marker)
    (hfault : P.gate.fault = none) {d : CommitDesc} (hm : marker < d.global) (hd : P.Holds d) : P.Delivers d := by
  rcases hd with ⟨r, hr, hd⟩ | ⟨c, hc, hd⟩ | ⟨k, c, x, hk, hx, hd⟩
  · rcases h.full hfault r hr (hd.1 ▸ hm) with hr | hr
    · exact .emitted r hr hd
    · exact .recovery r hr hd (h.diverts_of_mem hr)
  · exact .ready c hc hd
  · exact .waits k c x hk hx hd

lemma Gate.LedgerOk.emitted_pairwise {marker s : ℕ} {W : List CommitDesc} {P : Proxy}
    (h : P.gate.LedgerOk marker) (hok : ProxyOk s W P) :
    (P.gate.emitted.map (·.global)).Pairwise (· < ·) := by
  have hsub : (P.gate.emitted.map (·.global)).Sublist (P.gate.handed.map (·.global)) :=
    ((sublist_append_left _ _).trans h.sublist).map _
  rw [show P.gate.handed.map (·.global) = _ from hok.gate.order] at hsub
  exact (pairwise_lt_range' ..).sublist hsub

/-- The markers of the RESUMEs. -/
def markersOf (ms : List Msg) : List ℕ :=
  ms.filterMap fun
    | .resume _ m => some m
    | _ => none

lemma mem_markersOf {ms : List Msg} {epoch m : ℕ} (h : Msg.resume epoch m ∈ ms) : m ∈ markersOf ms :=
  mem_filterMap.mpr ⟨_, h, rfl⟩

/-- A write before the RESUME and one after it. -/
def writesAround : List ClientEvent :=
  [.accept 1, .command 1 (str "SET a 1\n") true, .flush, .resume 1, .command 1 (str "SET b 2\n") true, .flush]

/-- The BASELINE. -/
def beforeBuffering : List (Env × Input) := calmly (((sent writesAround).take 1).map .msg)

/-- The first write comes during buffering, then RESUME, and then the second write. -/
def resumedInTime : List (Env × Input) :=
  calmly ([.record 1 0 (str "SET a 1\n"), .msg (.batch 7 [⟨1, 1, 1, kvsCmdCrc64 (str "SET a 1\n"), 8, true⟩]),
    .poll false, .msg (.resume 7 1), .record 1 1 (str "SET b 2\n")] ++ ((sent writesAround).drop 3).map .msg)

/-- The record of the first write comes after the RESUME. -/
def resumedEarly : List (Env × Input) :=
  calmly ((((sent writesAround).take 3).drop 1).map .msg ++ [.poll false, .record 1 0 (str "SET a 1\n")])

end PocketKv.CommitGate
