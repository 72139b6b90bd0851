import Mathlib.Logic.Relation
import PocketKv.CommitGate.Proxy

/-!
# What matching and draining can do
-/

namespace PocketKv.CommitGate

open Relation Resp

variable {g : Gate}

/-- The flow of a context. -/
def Ctx.flow (c : Ctx) (g : Gate) : Flow := ⟨c.cmds, c.descs, g⟩

section

variable (env : Env) (S : ℕ → Bool)

/-- One move, of a gate that may start with the writes `S`. -/
inductive Move : Flow → Flow → Prop where
  | frame {cs ds g} (c : Cmd) (hc : c.data ≠ []) : Move ⟨cs, ds, g⟩ ⟨cs ++ [c], ds, g⟩
  | count {cs ds g} (n : ℕ) : Move ⟨cs, ds, g⟩ ⟨cs, ds, g.setPending n⟩
  | fault {cs ds g} (reason : ℕ) : Move ⟨cs, ds, g⟩ ⟨cs, ds, g.raise reason⟩
  | skip {cs ds g} {c : Cmd} {d : Desc} (hw : d.desc.write = false) : Move ⟨c :: cs, d :: ds, g⟩ ⟨cs, ds, g⟩
  | first {cs ds g} {c : Cmd} {d : Desc} (hm : c.matches d.desc = true) (hw : d.desc.write = true)
      (h0 : g.nextGlobal = 0) (hr : g.ready = []) (hS : S d.desc.global = true) :
      Move ⟨c :: cs, d :: ds, g⟩
        ⟨cs, ds, (g.setReady [{ c with global := d.desc.global }]).setNext d.desc.global⟩
  | ready {cs ds g} {c : Cmd} {d : Desc} (hm : c.matches d.desc = true) (hw : d.desc.write = true)
      (h0 : g.nextGlobal ≠ 0) :
      Move ⟨c :: cs, d :: ds, g⟩ ⟨cs, ds, g.setReady (pcReadyInsert { c with global := d.desc.global } g.ready)⟩
  | pass {cs ds g} {c : Cmd} {rs : List Cmd} (hr : g.ready = c :: rs) (hn : c.global = g.nextGlobal)
      (hok : (pcEmitCmd env c (g.setReady rs)).2 = true) :
      Move ⟨cs, ds, g⟩
        ⟨cs, ds, (pcEmitCmd env c (g.setReady rs)).1.setNext ((pcEmitCmd env c (g.setReady rs)).1.nextGlobal + 1)⟩
  | stop {cs ds g} {c : Cmd} {rs : List Cmd} (hr : g.ready = c :: rs) (hn : c.global = g.nextGlobal)
      (hok : (pcEmitCmd env c (g.setReady rs)).2 = false) :
      Move ⟨cs, ds, g⟩ ⟨cs, ds, (pcEmitCmd env c (g.setReady rs)).1⟩

/-- Several moves. -/
abbrev Moves : Flow → Flow → Prop := ReflTransGen (Move env S)

end

variable {env : Env} {S : ℕ → Bool} {n : ℕ} {ds : List Desc} {cs : List Cmd} {c : Ctx} {x y : Flow}

/-! ### Draining -/

/-- There is nothing to show after a fault. -/
lemma Gate.of_raise {reason : ℕ} {p : Prop} (h : (g.raise reason).fault = none) : p := by
  simp at h

@[simp] lemma Gate.raise_isNone (g : Gate) (reason : ℕ) : (g.raise reason).fault.isNone = false := by
  cases h : g.fault <;> simp [h]

lemma Gate.diverts_iff : g.diverts = true ↔ g.buffering = true ∨ g.waitResume.isSome = true ∨ 0 < g.recBytes := by
  simp [Gate.diverts, or_assoc]

lemma Gate.diverts_toRecovery (h : g.diverts = true) (r : Rec) : (g.toRecovery r).diverts = true := by
  have hle : g.recBytes ≤ (g.toRecovery r).recBytes := by simp [Gate.recBytes]
  rw [Gate.diverts_iff] at h ⊢
  exact h.imp_right fun h => h.imp_right fun h => h.trans_le hle

lemma pcEmitCmd_cases (env : Env) (c : Cmd) (g : Gate) :
    g.diverts = true ∧ (pcEmitCmd env c g = ((g.hand c.toRec).toRecovery c.toRec, g.fault.isNone) ∨
        pcEmitCmd env c g = (((g.hand c.toRec).toRecovery c.toRec).raise 5, false)) ∨
      g.diverts = false ∧ (pcEmitCmd env c g = (((g.hand c.toRec).call c.toRec).toReplica c.toRec, true) ∨
        pcEmitCmd env c g = (((g.hand c.toRec).call c.toRec).raise 1, false)) := by
  unfold pcEmitCmd pcRecoveryAppend
  rw [show g.diverts = (g.hand c.toRec).diverts from rfl, show g.fault = (g.hand c.toRec).fault from rfl]
  generalize g.hand c.toRec = g
  cases hd : g.diverts with
  | true =>
    refine .inl ⟨rfl, ?_⟩
    by_cases hm : pcMemoryMax < (g.toRecovery c.toRec).pendingBytes + (g.toRecovery c.toRec).recBytes
    · right
      simp only [hd, if_true, if_pos hm, Gate.raise_isNone]
    · left
      simp only [hd, if_true, if_neg hm, Gate.toRecovery_fault]
  | false =>
    refine .inr ⟨rfl, ?_⟩
    cases he : env.emit c.toRec <;> simp [hd]

@[simp] lemma pcEmitCmd_nextGlobal (env : Env) (c : Cmd) (g : Gate) :
    (pcEmitCmd env c g).1.nextGlobal = g.nextGlobal := by
  rcases pcEmitCmd_cases env c g with ⟨-, h | h⟩ | ⟨-, h | h⟩ <;> simp [h]

@[simp] lemma pcEmitCmd_ready (env : Env) (c : Cmd) (g : Gate) : (pcEmitCmd env c g).1.ready = g.ready := by
  rcases pcEmitCmd_cases env c g with ⟨-, h | h⟩ | ⟨-, h | h⟩ <;> simp [h]

@[simp] lemma pcEmitCmd_handed (env : Env) (c : Cmd) (g : Gate) :
    (pcEmitCmd env c g).1.handed = g.handed ++ [c.toRec] := by
  rcases pcEmitCmd_cases env c g with ⟨-, h | h⟩ | ⟨-, h | h⟩ <;> simp [h]

lemma pcEmitCmd_fault (env : Env) (c : Cmd) (g : Gate) (hn : (pcEmitCmd env c g).1.fault = none) :
    g.fault = none := by
  rcases pcEmitCmd_cases env c g with ⟨-, h | h⟩ | ⟨-, h | h⟩ <;> simp_all

/-- What holds of the gate all along in `pc_drain_ready`. -/
lemma drainLoop_rule {I : Gate → Prop} (fuel : ℕ)
    (start : ∀ {g c rs}, g.ready = c :: rs → g.nextGlobal = 0 → I g → I (g.setNext c.global))
    (late : ∀ {g c rs}, g.ready = c :: rs → c.global < g.nextGlobal → I g → I (g.raise 2))
    (pass : ∀ {g c rs}, g.ready = c :: rs → c.global = g.nextGlobal → (pcEmitCmd env c (g.setReady rs)).2 = true →
      I g → I (((pcEmitCmd env c (g.setReady rs)).1.free c).setNext
        (((pcEmitCmd env c (g.setReady rs)).1.free c).nextGlobal + 1)))
    (stop : ∀ {g c rs}, g.ready = c :: rs → c.global = g.nextGlobal → (pcEmitCmd env c (g.setReady rs)).2 = false →
      I g → I ((pcEmitCmd env c (g.setReady rs)).1.free c)) (h : I g) : I (drainLoop env fuel g) := by
  induction fuel generalizing g with
  | zero => exact h
  | succ fuel ih =>
    rw [drainLoop]
    split
    · exact h
    rename_i c rs hr
    -- A gate that has not started takes the number of the first write.
    have hstart : (if g.nextGlobal = 0 then g.setNext c.global else g).ready = c :: rs ∧
        I (if g.nextGlobal = 0 then g.setNext c.global else g) := by
      split
      · exact ⟨hr, start hr ‹_› h⟩
      · exact ⟨hr, h⟩
    dsimp only
    generalize (if g.nextGlobal = 0 then g.setNext c.global else g) = g₁ at hstart ⊢
    obtain ⟨hr₁, h₁⟩ := hstart
    split
    · exact late hr₁ ‹_› h₁
    split
    · exact h₁
    have hn : c.global = g₁.nextGlobal := by omega
    split
    · exact ih (pass hr₁ hn ‹_› h₁)
    · rename_i hok
      exact stop hr₁ hn (by simpa using hok) h₁

lemma drainLoop_moves (env : Env) (cs : List Cmd) (ds : List Desc) (fuel : ℕ) (h0 : g.nextGlobal ≠ 0) :
    Moves env S ⟨cs, ds, g⟩ ⟨cs, ds, drainLoop env fuel g⟩ ∧ (drainLoop env fuel g).nextGlobal ≠ 0 := by
  refine drainLoop_rule (I := fun g' => Moves env S ⟨cs, ds, g⟩ ⟨cs, ds, g'⟩ ∧ g'.nextGlobal ≠ 0) fuel
    (fun _ h0 h => absurd h0 h.2) (fun _ _ h => ⟨h.1.tail (.fault 2), h.2⟩) (fun hr hn hok h => ?_)
    (fun hr hn hok h => ?_) ⟨.refl, h0⟩
  · exact ⟨(h.1.tail (.pass hr hn hok)).tail (.count _), Nat.succ_ne_zero _⟩
  · exact ⟨(h.1.tail (.stop hr hn hok)).tail (.count _), by simpa [Gate.free] using h.2⟩

/-! ### The number of the next write -/

lemma Moves.fault (h : Moves env S x y) (hy : y.gate.fault = none) : x.gate.fault = none := by
  induction h with
  | refl => exact hy
  | tail _ hm ih =>
    cases hm with
    | fault _ => exact Gate.of_raise hy
    | @pass _ _ g c rs _ _ _ => exact ih (pcEmitCmd_fault env c (g.setReady rs) hy)
    | @stop _ _ g c rs _ _ _ => exact ih (pcEmitCmd_fault env c (g.setReady rs) hy)
    | _ => exact ih hy

lemma Moves.descs_nil (h : Moves env S x y) (hx : x.descs = []) : y.descs = [] := by
  induction h with
  | refl => exact hx
  | tail _ hm ih =>
    cases hm with
    | skip _ => simp at ih
    | first _ _ _ _ _ => simp at ih
    | ready _ _ _ => simp at ih
    | _ => exact ih

lemma pcReadyInsert_perm (c : Cmd) (rs : List Cmd) : (pcReadyInsert c rs).Perm (c :: rs) := by
  induction rs with
  | nil => exact .refl _
  | cons d ds ih =>
    unfold pcReadyInsert
    split
    · exact (ih.cons d).trans (.swap c d ds)
    · exact .refl _

/-- The writes that are ready or waiting have numbers above `n`. -/
structure Flow.Numbered (n : ℕ) (x : Flow) : Prop where
  ready : ∀ c ∈ x.gate.ready, n < c.global
  descs : ∀ d ∈ x.descs, d.desc.write = true → n < d.desc.global
  fresh : x.gate.nextGlobal = 0 → x.gate.ready = []

lemma Moves.numbered (h : Moves env S x y) (hx : x.Numbered n) : y.Numbered n := by
  induction h with
  | refl => exact hx
  | tail _ hm ih =>
    obtain ⟨hr, hd, h0⟩ := ih
    cases hm with
    | skip _ => exact ⟨hr, fun d hd' => hd d (.tail _ hd'), h0⟩
    | @first _ _ _ _ d _ hw _ _ _ =>
      have hdn : n < d.desc.global := hd _ (.head _) hw
      exact ⟨fun c hc => List.mem_singleton.mp hc ▸ hdn, fun d hd' => hd d (.tail _ hd'),
        fun h => absurd h (Nat.ne_zero_of_lt hdn)⟩
    | ready _ hw hne =>
      refine ⟨fun c hc => ?_, fun d hd' => hd d (.tail _ hd'), fun h => absurd h hne⟩
      rcases List.mem_cons.mp ((pcReadyInsert_perm _ _).mem_iff.mp hc) with rfl | hc
      · exact hd _ (.head _) hw
      · exact hr c hc
    | pass hr' _ _ =>
      refine ⟨fun c hc => hr c ?_, hd, fun h => absurd h (Nat.succ_ne_zero _)⟩
      rw [Gate.setNext_ready, pcEmitCmd_ready] at hc
      rw [hr']
      exact .tail _ hc
    | @stop _ _ g _ _ hr' _ _ =>
      refine ⟨fun c hc => hr c ?_, hd, fun h => ?_⟩
      · rw [pcEmitCmd_ready] at hc
        rw [hr']
        exact .tail _ hc
      · have hnil : g.ready = [] := h0 (by simpa using h)
        simp [hnil] at hr'
    | _ => exact ⟨hr, hd, h0⟩

/-! ### A rule for framing and matching -/

/-- A command is framed and counted. -/
def Flow.frame (x : Flow) (c : Cmd) : Flow :=
  ⟨x.cmds ++ [c], x.descs, x.gate.setPending (x.gate.pendingBytes + c.data.length)⟩

/-- A fault is raised. -/
def Flow.raise (x : Flow) (reason : ℕ) : Flow := ⟨x.cmds, x.descs, x.gate.raise reason⟩

/-- The queues of a connection and the gate after a call. -/
def flowOf (s : Ctx × Gate) : Flow := s.1.flow s.2

/-- A matched write becomes ready, and what is ready is passed on. -/
def pcReady (env : Env) (c : Cmd) (d : Desc) (g : Gate) : Gate :=
  pcDrainReady env (g.setReady (pcReadyInsert { c with global := d.desc.global } g.ready))

/-- The memory is used up. -/
def Gate.over (g : Gate) : Prop := pcMemoryMax < g.pendingBytes + g.recBytes

/-- The first command and the first descriptor do not match. -/
def Mismatch (x : Flow) : Prop :=
  ∃ c cs d ds, x.cmds = c :: cs ∧ x.descs = d :: ds ∧ c.matches d.desc = false

/-- A descriptor has waited too long for its command. -/
def Overdue (now : ℕ) (x : Flow) : Prop :=
  x.cmds = [] ∧ waitedTooLong now (x.descs.head?.map (·.created)) = true

/-- What holds all along: `J` between the commands that are framed, with those still to come, and `I` while the two
queues are matched. -/
structure Pumped (env : Env) (J I : List Cmd → Flow → Prop) : Prop where
  frame : ∀ {c : Cmd} {rest : List Cmd} {x : Flow}, c.data ≠ [] → J (c :: rest) x → ¬ (x.frame c).gate.over →
    I rest (x.frame c)
  overflow : ∀ {c : Cmd} {rest : List Cmd} {x : Flow}, c.data ≠ [] → J (c :: rest) x → (x.frame c).gate.over →
    J rest ((x.frame c).raise 1)
  skip : ∀ {c : Cmd} {d : Desc} {rest cs : List Cmd} {ds : List Desc} {g : Gate}, c.matches d.desc = true →
    d.desc.write = false → I rest ⟨c :: cs, d :: ds, g⟩ → I rest ⟨cs, ds, g.free c⟩
  write : ∀ {c : Cmd} {d : Desc} {rest cs : List Cmd} {ds : List Desc} {g : Gate}, c.matches d.desc = true →
    d.desc.write = true → I rest ⟨c :: cs, d :: ds, g⟩ → I rest ⟨cs, ds, pcReady env c d g⟩
  mismatch : ∀ {rest : List Cmd} {x : Flow}, I rest x → Mismatch x → I rest (x.raise 2)
  matched : ∀ {rest : List Cmd} {x : Flow}, I rest x → J rest x
  late : ∀ {rest : List Cmd} {x : Flow}, I rest x → x.descs = [] ∨ Overdue env.now x → J rest (x.raise 1)

/-- The commands that `pc_frame_ctx` makes of raw bytes, numbered from `n`. -/
def framed (now : ℕ) : ℕ → List Bytes → List Cmd
  | _, [] => []
  | n, raw :: raws => ⟨n, 0, raw, now⟩ :: framed now (n + 1) raws

namespace Pumped

variable {J I : List Cmd → Flow → Prop} {r : List Cmd}

/-- A property that faults do not touch. -/
lemma of_invariant
    (frame : ∀ {c : Cmd} {rest : List Cmd} {x : Flow}, c.data ≠ [] → I (c :: rest) x → I rest (x.frame c))
    (fault : ∀ {rest : List Cmd} {x : Flow} (reason : ℕ), I rest x → I rest (x.raise reason))
    (skip : ∀ {c : Cmd} {d : Desc} {rest cs : List Cmd} {ds : List Desc} {g : Gate}, c.matches d.desc = true →
      d.desc.write = false → I rest ⟨c :: cs, d :: ds, g⟩ → I rest ⟨cs, ds, g.free c⟩)
    (write : ∀ {c : Cmd} {d : Desc} {rest cs : List Cmd} {ds : List Desc} {g : Gate}, c.matches d.desc = true →
      d.desc.write = true → I rest ⟨c :: cs, d :: ds, g⟩ → I rest ⟨cs, ds, pcReady env c d g⟩) : Pumped env I I where
  frame hc h _ := frame hc h
  overflow hc h _ := fault 1 (frame hc h)
  skip := skip
  write := write
  mismatch h _ := fault 2 h
  matched h := h
  late h _ := fault 1 h

variable (h : Pumped env J I)
include h

lemma matchLoop (hx : I r ⟨cs, ds, g⟩) : I r (CommitGate.matchLoop env cs ds g) := by
  induction cs generalizing ds g with
  | nil => exact hx
  | cons c cs ih =>
    cases ds with
    | nil => exact hx
    | cons d ds =>
      rw [CommitGate.matchLoop]
      by_cases hm : c.matches d.desc = true
      swap
      · rw [if_neg hm]
        exact h.mismatch hx ⟨c, cs, d, ds, rfl, rfl, by simpa using hm⟩
      rw [if_pos hm]
      by_cases hw : d.desc.write = true
      · rw [if_pos hw]
        exact ih (h.write hm hw hx)
      · rw [if_neg hw]
        exact ih (h.skip hm (by simpa using hw) hx)

lemma tryMatch (hx : I r (c.flow g)) : J r (flowOf (pcTryMatch env c g)) := by
  have hloop := h.matchLoop hx
  unfold pcTryMatch
  dsimp only
  split
  · rename_i hlate
    refine h.late hloop ?_
    simp only [Ctx.timedOut, Bool.or_eq_true, Bool.and_eq_true, List.isEmpty_iff] at hlate
    exact hlate.imp And.left id
  · exact h.matched hloop

lemma frameOne {raw : Bytes} (hraw : raw ≠ []) (hx : J (⟨c.nextSeq, 0, raw, env.now⟩ :: r) (c.flow g)) :
    J r (flowOf (pcFrameOne env (c, g) raw)) := by
  unfold pcFrameOne
  dsimp only
  split
  · rename_i hover
    exact h.overflow hraw hx hover
  · rename_i hover
    exact h.tryMatch (h.frame hraw hx hover)

lemma frames {raws : List Bytes} (hraws : ∀ raw ∈ raws, raw ≠ [])
    (hx : J (framed env.now c.nextSeq raws) (c.flow g)) : J [] (flowOf (raws.foldl (pcFrameOne env) (c, g))) := by
  induction raws generalizing c g with
  | nil => exact hx
  | cons raw raws ih =>
    have hseq : (pcFrameOne env (c, g) raw).1.nextSeq = c.nextSeq + 1 := by
      unfold pcFrameOne
      dsimp only
      split <;> rfl
    have hone := h.frameOne (r := framed env.now (c.nextSeq + 1) raws) (hraws raw (.head _)) hx
    rw [← hseq] at hone
    exact ih (c := (pcFrameOne env (c, g) raw).1) (fun _ hr => hraws _ (.tail _ hr)) hone

lemma pcFrame (hb : c.baseline = true) (hx : J (framed env.now c.nextSeq (pcFrameCtx c.buf).1) (c.flow g)) :
    J [] (flowOf (pcFrame env c g)) := by
  rw [CommitGate.pcFrame, if_pos hb]
  exact h.frames (c := { c with buf := (pcFrameCtx c.buf).2 }) (fun raw hraw => pcFrameCtx_ne_nil hraw) hx

end Pumped

/-! ### Matching -/

/-- The number of the first write that is matched. -/
def firstWrite : List Cmd → List Desc → Option ℕ
  | c :: cs, d :: ds =>
    if c.matches d.desc then
      if d.desc.write then some d.desc.global else firstWrite cs ds
    else none
  | _, _ => none

@[simp] lemma firstWrite_nil (cs : List Cmd) : firstWrite cs [] = none := by
  cases cs <;> rfl

lemma pcReady_moves (env : Env) {c : Cmd} {d : Desc}
    (hnum : Flow.Numbered n ⟨c :: cs, d :: ds, g⟩) (hm : c.matches d.desc = true)
    (hw : d.desc.write = true) (hS : g.nextGlobal = 0 → S d.desc.global = true) :
    Moves env S ⟨c :: cs, d :: ds, g⟩ ⟨cs, ds, pcReady env c d g⟩ ∧ (pcReady env c d g).nextGlobal ≠ 0 := by
  unfold pcReady
  by_cases h0 : g.nextGlobal = 0
  · have hd0 : d.desc.global ≠ 0 := Nat.ne_zero_of_lt (hnum.descs d (.head _) hw)
    have hr : g.ready = [] := hnum.fresh h0
    -- The loop sets the number of the next write and then goes on as if it had been set.
    have heq : pcDrainReady env (g.setReady (pcReadyInsert { c with global := d.desc.global } g.ready)) =
        drainLoop env 1 ((g.setReady [{ c with global := d.desc.global }]).setNext d.desc.global) := by
      rw [hr]
      simp [pcDrainReady, pcReadyInsert, drainLoop, h0, hd0]
    obtain ⟨hdrain, hstarted⟩ := drainLoop_moves (S := S) env cs ds 1
      (g := (g.setReady [{ c with global := d.desc.global }]).setNext d.desc.global) hd0
    rw [heq]
    exact ⟨.head (.first hm hw h0 hr (hS h0)) hdrain, hstarted⟩
  · obtain ⟨hdrain, hstarted⟩ := drainLoop_moves (S := S) env cs ds _
      (g := g.setReady (pcReadyInsert { c with global := d.desc.global } g.ready)) h0
    exact ⟨.head (.ready hm hw h0) hdrain, hstarted⟩

/-- The moves so far; if the gate has not started, the first write that will be made ready is in `S`. -/
structure Moved (env : Env) (S : ℕ → Bool) (n : ℕ) (x : Flow) (rest : List Cmd) (y : Flow) : Prop where
  moves : Moves env S x y
  numbered : y.Numbered n
  starts : y.gate.nextGlobal = 0 → ∀ v ∈ firstWrite (y.cmds ++ rest) y.descs, S v = true

lemma moved_pumped (env : Env) (S : ℕ → Bool) (n : ℕ) (x : Flow) :
    Pumped env (Moved env S n x) (Moved env S n x) := by
  refine .of_invariant (fun hc h => ?_) (fun reason h => ?_) (fun {c d _ cs ds g} hm hw h => ?_) fun hm hw h => ?_
  · refine ⟨h.moves.trans ((ReflTransGen.single (.frame _ hc)).trans (.single (.count _))), { h.numbered with }, ?_⟩
    rw [Flow.frame, List.append_assoc]
    exact h.starts
  · exact ⟨h.moves.tail (.fault reason), { h.numbered with }, h.starts⟩
  · have hmoves : Moves env S ⟨c :: cs, d :: ds, g⟩ ⟨cs, ds, g.free c⟩ :=
      (ReflTransGen.single (.skip hw)).trans (.single (.count _))
    refine ⟨h.moves.trans hmoves, hmoves.numbered h.numbered, fun h0 v hv => h.starts h0 v ?_⟩
    simpa [firstWrite, hm, hw] using hv
  · obtain ⟨hmoves, hstarted⟩ := pcReady_moves env h.numbered hm hw
      fun h0 => h.starts h0 _ (by simp [firstWrite, hm, hw])
    exact ⟨h.moves.trans hmoves, hmoves.numbered h.numbered, fun h0 => absurd h0 hstarted⟩

lemma pcTryMatch_moves (hnum : (c.flow g).Numbered n)
    (hS : g.nextGlobal = 0 → ∀ x ∈ firstWrite c.cmds c.descs, S x = true) :
    Moves env S (c.flow g) (flowOf (pcTryMatch env c g)) := by
  refine ((moved_pumped env S n (c.flow g)).tryMatch (r := []) ⟨.refl, hnum, ?_⟩).moves
  rw [List.append_nil]
  exact hS

lemma pcFrame_moves (hnum : (c.flow g).Numbered n) (hb : c.baseline = true)
    (hS : g.nextGlobal = 0 →
      ∀ x ∈ firstWrite (c.cmds ++ framed env.now c.nextSeq (pcFrameCtx c.buf).1) c.descs, S x = true) :
    Moves env S (c.flow g) (flowOf (pcFrame env c g)) :=
  ((moved_pumped env S n (c.flow g)).pcFrame hb ⟨.refl, hnum, hS⟩).moves

/-- No descriptor waits, and nothing was passed on since `g`. -/
structure Flow.Quiet (g : Gate) (y : Flow) : Prop where
  descs : y.descs = []
  emitted : y.gate.emitted = g.emitted
  calls : y.gate.calls = g.calls

lemma quiet_pumped (env : Env) (g : Gate) : Pumped env (fun _ => Flow.Quiet g) fun _ => Flow.Quiet g :=
  .of_invariant (fun _ h => { h with }) (fun _ h => { h with }) (fun _ _ h => absurd h.descs (List.cons_ne_nil _ _))
    fun _ _ h => absurd h.descs (List.cons_ne_nil _ _)

/-- After a BASELINE the bytes kept are framed, with no descriptor to match. -/
lemma rebase_quiet (env : Env) (c : Ctx) (nextSeq : ℕ) (g : Gate) :
    Flow.Quiet g (flowOf (pcFrame env (c.rebase nextSeq) g)) :=
  (quiet_pumped env g).pcFrame rfl ⟨rfl, rfl, rfl⟩

/-! ### RESUME -/

section

variable {m : ℕ} {r : Rec} {rs : List Rec}

lemma resumeLoop_sublist (env : Env) (m : ℕ) (rs : List Rec) : (resumeLoop env m rs).1.Sublist rs := by
  induction rs with
  | nil => exact .slnil
  | cons r rs ih =>
    unfold resumeLoop
    split
    · exact ih.cons r
    · split
      · exact ih.cons_cons r
      · exact (List.nil_sublist rs).cons_cons r

lemma resumeLoop_above (h : r ∈ (resumeLoop env m rs).1) : m < r.global := by
  induction rs with
  | nil => simp [resumeLoop] at h
  | cons r' rs ih =>
    unfold resumeLoop at h
    split at h
    · exact ih h
    · split at h
      · rcases List.mem_cons.mp h with rfl | h
        · omega
        · exact ih h
      · rw [List.mem_singleton.mp h]
        omega

lemma resumeLoop_complete (hok : (resumeLoop env m rs).2 = true)
    (hr : r ∈ rs) (hm : m < r.global) : r ∈ (resumeLoop env m rs).1.filter env.emit := by
  induction rs with
  | nil => simp at hr
  | cons r' rs ih =>
    unfold resumeLoop at hok ⊢
    split at hok
    · rename_i hle
      rw [if_pos hle]
      rcases List.mem_cons.mp hr with rfl | hr
      · omega
      · exact ih hok hr
    · rename_i hle
      rw [if_neg hle]
      split at hok
      · rename_i he
        rw [if_pos he, List.filter_cons_of_pos he]
        rcases List.mem_cons.mp hr with rfl | hr
        · exact .head _
        · exact .tail _ (ih hok hr)
      · simp at hok

lemma pcOnResume_eq (env : Env) (m : ℕ) (g : Gate) : ∃ f, (f = none → g.fault = none ∧
    (resumeLoop env m g.recovery).2 = true) ∧ pcOnResume env m g = { g with
      recovery := [], waitResume := none, emitted := g.emitted ++ (resumeLoop env m g.recovery).1.filter env.emit
      calls := g.calls ++ (resumeLoop env m g.recovery).1.map (⟨g.fault, ·⟩), fault := f } := by
  unfold pcOnResume
  dsimp only
  split
  · rename_i hok
    exact ⟨g.fault, fun hn => ⟨hn, hok⟩, rfl⟩
  · exact ⟨_, fun hn => Gate.of_raise (g := g) hn, rfl⟩

end

end PocketKv.CommitGate
