import Mathlib.Data.Multiset.Basic
import PocketKv.CommitGate.Effects

/-!
# The accounts of the commit gate
-/

namespace PocketKv.CommitGate

open Library Relation Resp List

/-- The descriptor is that of the write. -/
def CommitDesc.Describes (d : CommitDesc) (r : Rec) : Prop :=
  d.global = r.global ∧ d.len = r.data.length ∧ d.crc = kvsCmdCrc64 r.data

/-- The numbers of the writes among descriptors. -/
def waiting (ds : List Desc) : Multiset ℕ := ((writesOf (ds.map (·.desc))).map (·.global) : List ℕ)

/-- The numbers that were handed over or are ready. -/
def Gate.held (g : Gate) : Multiset ℕ :=
  (g.handed.map (·.global) ++ g.ready.map (·.global) : List ℕ)

/-- No number is used twice, and none is 0. -/
structure Distinct (W : List CommitDesc) : Prop where
  nodup : (W.map (·.global)).Nodup
  pos : ∀ d ∈ W, 0 < d.global

lemma Distinct.left {W W' : List CommitDesc} (h : Distinct (W ++ W')) : Distinct W := by
  refine ⟨?_, fun d hd => h.pos d (mem_append_left _ hd)⟩
  have hn := h.nodup
  rw [map_append] at hn
  exact hn.of_append_left

/-- The accounts for one connection's queues and the gate, where the writes `R` wait elsewhere. -/
structure FlowOk (s : ℕ) (W : List CommitDesc) (R : Multiset ℕ) (x : Flow) : Prop where
  fresh : x.gate.nextGlobal = 0 → x.gate.handed = [] ∧ x.gate.ready = []
  order : x.gate.handed.map (·.global) = List.range' s x.gate.handed.length
  /-- The next number is the one after that, or the last one if handing that over raised a fault. -/
  next : x.gate.nextGlobal ≠ 0 → x.gate.nextGlobal = s + x.gate.handed.length ∨
    x.gate.handed ≠ [] ∧ x.gate.nextGlobal + 1 = s + x.gate.handed.length
  handed : ∀ r ∈ x.gate.handed, ∃ d ∈ W, d.Describes r
  ready : ∀ c ∈ x.gate.ready, ∃ d ∈ W, d.Describes c.toRec
  descs : ∀ d ∈ x.descs, d.desc.write = true → d.desc ∈ W
  account : x.gate.held + waiting x.descs + R ≤ (W.map (·.global) : List ℕ)
  exact : x.gate.fault = none → x.gate.held + waiting x.descs + R = (W.map (·.global) : List ℕ)

/-! ### The places of a write -/

variable {d : Desc}

lemma waiting_cons_skip (hw : d.desc.write = false) (ds : List Desc) : waiting (d :: ds) = waiting ds := by
  simp [waiting, writesOf, hw]

lemma waiting_cons_write (hw : d.desc.write = true) (ds : List Desc) :
    waiting (d :: ds) = {d.desc.global} + waiting ds := by
  simp [waiting, writesOf, hw]

lemma waiting_concat (ds : List Desc) (d : CommitDesc) (t : ℕ) :
    waiting (ds ++ [⟨d, t⟩]) = waiting ds + ((writesOf [d]).map (·.global) : List ℕ) := by
  simp [waiting, writesOf]

lemma Gate.held_insert (g : Gate) (c : Cmd) :
    (g.setReady (pcReadyInsert c g.ready)).held = g.held + {c.global} := by
  have hp := (pcReadyInsert_perm c g.ready).map (·.global)
  have : (g.handed.map (·.global) ++ (pcReadyInsert c g.ready).map (·.global)).Perm
      (c.global :: (g.handed.map (·.global) ++ g.ready.map (·.global))) :=
    (hp.append_left _).trans perm_middle
  rw [add_comm, Multiset.singleton_add]
  exact Multiset.coe_eq_coe.mpr this

variable {c : Cmd} {rs : List Cmd}

lemma Gate.held_pop {g : Gate} (hr : g.ready = c :: rs) : g.held = {c.global} + (g.setReady rs).held := by
  exact Multiset.coe_eq_coe.mpr (by simp [hr])

lemma Gate.held_hand {g g' : Gate} (hh : g'.handed = g.handed ++ [c.toRec])
    (hr : g'.ready = g.ready) : g'.held = {c.global} + g.held := by
  exact Multiset.coe_eq_coe.mpr (by simp [hh, hr, Cmd.toRec])

/-! ### Moves keep the accounts -/

section

variable {s : ℕ} {W : List CommitDesc} {R R' : Multiset ℕ} {cs cs' : List Cmd} {ds ds' : List Desc} {g g' : Gate}
  (h : FlowOk s W R ⟨cs, ds, g⟩)
include h

lemma FlowOk.rearrange (hsum : waiting ds' + R' = waiting ds + R)
    (hds : ∀ d ∈ ds', d.desc.write = true → d.desc ∈ W) : FlowOk s W R' ⟨cs', ds', g⟩ := by
  have heq : g.held + waiting ds' + R' = g.held + waiting ds + R := by rw [add_assoc, hsum, add_assoc]
  exact ⟨h.fresh, h.order, h.next, h.handed, h.ready, hds, heq ▸ h.account, fun hn => heq ▸ h.exact hn⟩

lemma FlowOk.congr (hnext : g'.nextGlobal = g.nextGlobal)
    (hready : g'.ready = g.ready) (hhanded : g'.handed = g.handed)
    (hfault : g'.fault = none → g.fault = none) : FlowOk s W R ⟨cs', ds, g'⟩ := by
  have heq : g'.held = g.held := by rw [Gate.held, Gate.held, hready, hhanded]
  refine ⟨?_, ?_, ?_, ?_, ?_, h.descs, ?_, fun hn => ?_⟩
  · rw [hnext, hready, hhanded]
    exact h.fresh
  · rw [hhanded]
    exact h.order
  · rw [hnext, hhanded]
    exact h.next
  · rw [hhanded]
    exact h.handed
  · rw [hready]
    exact h.ready
  · rw [heq]
    exact h.account
  · rw [heq]
    exact h.exact (hfault hn)

lemma FlowOk.raise (reason : ℕ) : FlowOk s W R ⟨cs', ds, g.raise reason⟩ := h.congr rfl rfl rfl Gate.of_raise

end

section

variable {env : Env} {S : ℕ → Bool} {s : ℕ} {W : List CommitDesc} {R : Multiset ℕ} {x y : Flow} (hW : Distinct W)

include hW

lemma FlowOk.numbered (h : FlowOk s W R x) : x.Numbered 0 := by
  refine ⟨fun c hc => ?_, fun d hd hw => hW.pos d.desc (h.descs d hd hw), fun h0 => (h.fresh h0).2⟩
  obtain ⟨d, hd, hg, -⟩ := h.ready c hc
  rw [show c.global = d.global from hg.symm]
  exact hW.pos d hd

lemma FlowOk.due (h : FlowOk s W R x) (hr : x.gate.ready = c :: rs)
    (hn : c.global = x.gate.nextGlobal) : x.gate.nextGlobal = s + x.gate.handed.length := by
  have hne : x.gate.nextGlobal ≠ 0 := by
    rw [← hn]
    exact Nat.ne_zero_of_lt ((h.numbered hW).ready c (by simp [hr]))
  rcases h.next hne with hnext | ⟨hh, hnext⟩
  · exact hnext
  · exfalso
    have hpos : 0 < x.gate.handed.length := length_pos_iff.mpr hh
    -- The number is handed over already.
    have hmem : c.global ∈ x.gate.handed.map (·.global) := by
      rw [h.order, mem_range'_1]
      omega
    have hnodup : (x.gate.held).Nodup := by
      have hle : x.gate.held ≤ (W.map (·.global) : List ℕ) :=
        (Multiset.le_add_right _ _).trans ((Multiset.le_add_right _ _).trans h.account)
      exact Multiset.nodup_of_le hle (Multiset.coe_nodup.mpr hW.nodup)
    rw [Gate.held, Multiset.coe_nodup, nodup_append] at hnodup
    have hready : c.global ∈ x.gate.ready.map (·.global) := by simp [hr]
    exact hnodup.2.2 _ hmem _ hready rfl

lemma FlowOk.hand {g' : Gate} (h : FlowOk s W R x)
    (hr : x.gate.ready = c :: rs) (hn : c.global = x.gate.nextGlobal)
    (hready : g'.ready = rs) (hhanded : g'.handed = x.gate.handed ++ [c.toRec])
    (hnext : g'.nextGlobal = x.gate.nextGlobal + 1 ∨ g'.nextGlobal = x.gate.nextGlobal)
    (hfault : g'.fault = none → x.gate.fault = none) : FlowOk s W R ⟨x.cmds, x.descs, g'⟩ := by
  have hdue := h.due hW hr hn
  have hpos : 0 < c.global := (h.numbered hW).ready c (by simp [hr])
  have hheld : g'.held = x.gate.held := by
    rw [Gate.held_pop hr]
    exact Gate.held_hand hhanded hready
  refine ⟨fun h0 => ?_, ?_, fun _ => ?_, fun r hr' => ?_, fun c' hc' => ?_, h.descs, ?_, fun hnone => ?_⟩
  · simp only at h0
    omega
  · simp [hhanded, h.order, range'_concat, Cmd.toRec, hn, hdue]
  · simp only [hhanded, length_append, length_singleton]
    rcases hnext with hnext | hnext
    · left
      omega
    · right
      exact ⟨by simp, by omega⟩
  · rw [hhanded, mem_append, mem_singleton] at hr'
    rcases hr' with hr' | rfl
    · exact h.handed r hr'
    · exact h.ready c (by simp [hr])
  · refine h.ready c' ?_
    rw [hr, ← hready]
    exact .tail _ hc'
  · rw [hheld]
    exact h.account
  · rw [hheld]
    exact h.exact (hfault hnone)

omit hW in
lemma matched_published (hm : c.matches d.desc = true) (hd : d.desc ∈ W) :
    ∃ d' ∈ W, d'.Describes (Cmd.toRec { c with global := d.desc.global }) := by
  simp only [Cmd.matches, Bool.and_eq_true, beq_iff_eq] at hm
  exact ⟨d.desc, hd, rfl, hm.1.2.symm, hm.2.symm⟩

lemma Move.flowOk (hm : Move env S x y) (h : FlowOk s W R x) : ∃ s', (s' = s ∨ S s' = true) ∧ FlowOk s' W R y := by
  cases hm with
  | frame _ _ | count _ => exact ⟨s, .inl rfl, h.congr rfl rfl rfl id⟩
  | fault reason => exact ⟨s, .inl rfl, h.raise reason⟩
  | skip hw =>
    exact ⟨s, .inl rfl, h.rearrange (by rw [waiting_cons_skip hw]) fun d hd => h.descs d (.tail _ hd)⟩
  | @first cs ds g c d hm hw h0 hr hS =>
    have hd0 : d.desc.global ≠ 0 := Nat.ne_zero_of_lt ((h.numbered hW).descs d (.head _) hw)
    have hh : g.handed = [] := (h.fresh h0).1
    have hsum : ((g.setReady [{ c with global := d.desc.global }]).setNext d.desc.global).held +
        waiting ds + R = g.held + waiting (d :: ds) + R := by
      rw [waiting_cons_write hw]
      simp [Gate.held, hh, hr]
    refine ⟨d.desc.global, .inr hS, fun h => absurd h hd0, by simp [hh], fun _ => .inl (by simp [hh]),
      h.handed, fun c' hc' => ?_, fun d hd => h.descs d (.tail _ hd), hsum ▸ h.account, fun hn => hsum ▸ h.exact hn⟩
    rw [mem_singleton.mp hc']
    exact matched_published hm (h.descs d (.head _) hw)
  | @ready cs ds g c d hm hw hne =>
    have hsum : (g.setReady (pcReadyInsert { c with global := d.desc.global } g.ready)).held +
        waiting ds + R = g.held + waiting (d :: ds) + R := by
      rw [Gate.held_insert, waiting_cons_write hw, add_assoc g.held]
    refine ⟨s, .inl rfl, fun h => absurd h hne, h.order, h.next, h.handed, fun c' hc' => ?_,
      fun d hd => h.descs d (.tail _ hd), hsum ▸ h.account, fun hn => hsum ▸ h.exact hn⟩
    rcases mem_cons.mp ((pcReadyInsert_perm _ _).mem_iff.mp hc') with rfl | hc'
    · exact matched_published hm (h.descs d (.head _) hw)
    · exact h.ready c' hc'
  | @pass _ _ g c rs hr hn _ =>
    exact ⟨s, .inl rfl,
      h.hand hW hr hn (by simp) (by simp) (.inl (by simp)) (pcEmitCmd_fault env c (g.setReady rs))⟩
  | @stop _ _ g c rs hr hn _ =>
    exact ⟨s, .inl rfl,
      h.hand hW hr hn (by simp) (by simp) (.inr (by simp)) (pcEmitCmd_fault env c (g.setReady rs))⟩

lemma Moves.flowOk (hm : Moves env S x y) (h : FlowOk s W R x) :
    ∃ s', (s' = s ∨ S s' = true) ∧ FlowOk s' W R y := by
  induction hm with
  | refl => exact ⟨s, .inl rfl, h⟩
  | tail _ hm ih =>
    obtain ⟨s₁, hs₁, h₁⟩ := ih
    obtain ⟨s₂, rfl | hs₂, h₂⟩ := hm.flowOk hW h₁
    · exact ⟨s₂, hs₁, h₂⟩
    · exact ⟨s₂, .inr hs₂, h₂⟩

end

/-! ### One connection and the others -/

section

variable {s : ℕ} {W : List CommitDesc} {R : Multiset ℕ} {cs : List Cmd} {ds : List Desc} {g : Gate}

lemma published_append {r : Rec} (W' : List CommitDesc) :
    (∃ d ∈ W, d.Describes r) → ∃ d ∈ W ++ W', d.Describes r :=
  fun ⟨d, hd, hr⟩ => ⟨d, mem_append_left _ hd, hr⟩

variable (h : FlowOk s W R ⟨cs, ds, g⟩)
include h

lemma FlowOk.receive (d : CommitDesc) (t : ℕ) : FlowOk s (W ++ writesOf [d]) R ⟨cs, ds ++ [⟨d, t⟩], g⟩ := by
  have hW : ((W ++ writesOf [d]).map (·.global) : List ℕ) =
      (W.map (·.global) : Multiset ℕ) + ((writesOf [d]).map (·.global) : List ℕ) := by simp
  have hsum : g.held + waiting (ds ++ [⟨d, t⟩]) + R =
      g.held + waiting ds + R + ((writesOf [d]).map (·.global) : List ℕ) := by
    rw [waiting_concat]
    ac_rfl
  refine ⟨h.fresh, h.order, h.next, fun r hr => published_append _ (h.handed r hr), fun c hc => published_append _ (h.ready c hc),
    fun d' hd' hw => ?_, ?_, fun hn => ?_⟩
  · simp only [mem_append, mem_singleton] at hd'
    rcases hd' with hd' | rfl
    · exact mem_append_left _ (h.descs d' hd' hw)
    · exact mem_append_right _ (by simpa [writesOf] using hw)
  · rw [hsum, hW]
    exact Multiset.add_le_add_right h.account
  · rw [hsum, hW, h.exact hn]

lemma FlowOk.drop (hd : g.fault = none → waiting ds = 0) : FlowOk s W R ⟨cs, [], g⟩ := by
  refine ⟨h.fresh, h.order, h.next, h.handed, h.ready, fun _ hd => absurd hd not_mem_nil, ?_, fun hn => ?_⟩
  · refine le_trans ?_ h.account
    gcongr
    exact Multiset.zero_le _
  · have := h.exact hn
    rw [hd hn] at this
    exact this

lemma FlowOk.lose (hfault : g.fault ≠ none) (ws : List CommitDesc) : FlowOk s (W ++ ws) R ⟨cs, ds, g⟩ := by
  refine ⟨h.fresh, h.order, h.next, fun r hr => published_append _ (h.handed r hr), fun c hc => published_append _ (h.ready c hc),
    fun d' hd' hw => mem_append_left _ (h.descs d' hd' hw), ?_, fun hn => absurd hn hfault⟩
  rw [map_append, ← Multiset.coe_add]
  exact h.account.trans (Multiset.le_add_right _ _)

end

/-- The numbers that wait in a context. -/
def Ctx.waiting (c : Ctx) : Multiset ℕ := CommitGate.waiting c.descs

/-- The descriptors of writes are among those published. -/
def Ctx.DescsIn (W : List CommitDesc) (c : Ctx) : Prop :=
  ∀ d ∈ c.descs, d.desc.write = true → d.desc ∈ W

/-- The accounts of the proxy are right. -/
structure ProxyOk (s : ℕ) (W : List CommitDesc) (P : Proxy) : Prop where
  gate : FlowOk s W (total Ctx.waiting P.ctxs) ⟨[], [], P.gate⟩
  descs : ∀ e ∈ P.ctxs.entries, e.2.DescsIn W

section

variable {s k : ℕ} {W : List CommitDesc} {P : Proxy} {c : Ctx} {g : Gate}

lemma ProxyOk.focus (h : ProxyOk s W P) (hc : P.getCtx k = some c) :
    FlowOk s W (total Ctx.waiting (P.ctxs.erase k)) (c.flow P.gate) := by
  rcases Proxy.getCtx_cases hc with hl | ⟨hl, rfl⟩
  · refine h.gate.rearrange ?_ (of_lookup (p := Ctx.DescsIn W) hl h.descs)
    rw [total_of_lookup _ hl]
    exact (zero_add _).symm
  · refine h.gate.rearrange ?_ (fun _ hd => absurd hd (not_mem_nil))
    rw [erase_eq_self hl]

lemma FlowOk.put (h : FlowOk s W (total Ctx.waiting (P.ctxs.erase k)) (c.flow g))
    (hP : ∀ e ∈ P.ctxs.entries, e.2.DescsIn W) :
    ProxyOk s W (P.put k (c, g)) := by
  refine ⟨h.rearrange ?_ (fun _ hd => absurd hd (not_mem_nil)), forall_insert (p := Ctx.DescsIn W) h.descs hP⟩
  exact zero_add _

lemma ProxyOk.congr {P' : Proxy} (h : ProxyOk s W P) (hctxs : P'.ctxs = P.ctxs)
    (hnext : P'.gate.nextGlobal = P.gate.nextGlobal) (hready : P'.gate.ready = P.gate.ready)
    (hhanded : P'.gate.handed = P.gate.handed)
    (hfault : P'.gate.fault = none → P.gate.fault = none) : ProxyOk s W P' := by
  refine ⟨?_, hctxs ▸ h.descs⟩
  rw [hctxs]
  exact h.gate.congr hnext hready hhanded hfault

lemma ProxyOk.numbered (hW : Distinct W) (h : ProxyOk s W P) : P.Numbered 0 := by
  have hgate := h.gate.numbered hW
  exact ⟨hgate, fun e he => ⟨hgate.ready, fun d hd hw => hW.pos _ (h.descs e he d hd hw), hgate.fresh⟩⟩

lemma waiting_of_idle (hc : P.getCtx k = some c) (hi : P.idle k = true) : waiting c.descs = 0 := by
  rcases Proxy.getCtx_cases hc with hl | ⟨-, rfl⟩
  · simp only [Proxy.idle, hl, Option.all_some, List.isEmpty_iff] at hi
    simp [waiting, hi]
  · rfl

lemma ProxyOk.release (h : ProxyOk s W P) (hc : P.getCtx k = some c)
    (hi : P.gate.fault = none → P.idle k = true) (n : ℕ) :
    FlowOk s W (total Ctx.waiting (P.ctxs.erase k)) ⟨[], [], P.gate.setPending n⟩ :=
  ((h.focus hc).drop fun hnone => waiting_of_idle hc (hi hnone)).congr rfl rfl rfl id

end

section

variable {env : Env} {S : ℕ → Bool} {s : ℕ} {W ds : List CommitDesc} {P Q : Proxy}

lemma Effect.proxyOk (e : Effect env S P ds Q) (hW : Distinct W) (h : ProxyOk s W P) :
    ∃ s', (s' = s ∨ S s' = true) ∧ ProxyOk s' (W ++ writesOf ds) Q := by
  cases e with
  | flow hc hm _ =>
    obtain ⟨s', hs', hflow⟩ := hm.flowOk hW (h.focus hc)
    refine ⟨s', hs', ?_⟩
    simpa [writesOf] using hflow.put h.descs
  | @receive c d hc =>
    refine ⟨s, .inl rfl, FlowOk.put ((h.focus hc).receive d env.now) fun e he d' hd hw => ?_⟩
    exact mem_append_left _ (h.descs e he d' hd hw)
  | @miss d hd =>
    refine ⟨s, .inl rfl, ?_⟩
    by_cases hfault : P.gate.fault = none
    · simpa [writesOf, hd hfault] using h
    · exact ⟨h.gate.lose hfault _, fun e he d hd hw => mem_append_left _ (h.descs e he d hd hw)⟩
  | @drop k c c' n hc hi hcmds hdescs =>
    refine ⟨s, .inl rfl, ?_⟩
    have hflow : FlowOk s W (total Ctx.waiting (P.ctxs.erase k)) (c'.flow (P.gate.setPending n)) := by
      rw [Ctx.flow, hcmds, hdescs]
      exact h.release hc hi n
    simpa [writesOf] using hflow.put h.descs
  | @forget k c n hl hi =>
    have hc : P.getCtx k = some c := by simp [Proxy.getCtx, hl]
    refine ⟨s, .inl rfl, ?_⟩
    simpa [writesOf] using
      (⟨h.release hc hi n, forall_erase (p := Ctx.DescsIn W) h.descs⟩ : ProxyOk s W { P with
        ctxs := P.ctxs.erase k, gate := P.gate.setPending n })
  | epoch e =>
    have hepoch : ProxyOk s W { P with sessionEpoch := e } := h.congr rfl rfl rfl rfl id
    exact ⟨s, .inl rfl, by simpa [writesOf] using hepoch⟩
  | fault reason =>
    have hraise : ProxyOk s W (P.raise reason) := ⟨h.gate.raise reason, h.descs⟩
    exact ⟨s, .inl rfl, by simpa [writesOf] using hraise⟩

lemma Effects.proxyOk (e : Effects env S P ds Q) (hW : Distinct (W ++ writesOf ds)) (h : ProxyOk s W P) :
    ∃ s', (s' = s ∨ S s' = true) ∧ ProxyOk s' (W ++ writesOf ds) Q := by
  induction e with
  | refl => exact ⟨s, .inl rfl, by simpa [writesOf] using h⟩
  | @tail Q Q' ds ds' _ e ih =>
    rw [writesOf_append, ← append_assoc] at hW ⊢
    obtain ⟨s₁, hs₁, h₁⟩ := ih hW.left
    obtain ⟨s₂, rfl | hs₂, h₂⟩ := e.proxyOk hW.left h₁
    · exact ⟨s₂, hs₁, h₂⟩
    · exact ⟨s₂, .inr hs₂, h₂⟩

end

end PocketKv.CommitGate
