import PocketKv.Persistence.Slots

/-!
# The slots carry out the log
-/

namespace PocketKv.Persistence

open Library Resp List Function

/-- The slot that is to be written. -/
def Sqe.target : Sqe → Option ℕ
  | .write s _ => some s
  | .fsync _ => none

namespace Slots

open Relation (ReflTransGen)

variable {S T : Slots} {A : Aof} {n i s : ℕ}

/-- The slots handed over and not written, in that order. -/
def unwritten (S : Slots) : List ℕ := S.sqes.filterMap Sqe.target ++ S.thread.held.toList ++ S.ready

/-- What is in them. -/
def bufs (S : Slots) : List Bytes := S.unwritten.map fun s => (S.slots s).buf

theorem mem_unwritten (h : S.Owned) {a : ℕ} (ha : a ∈ S.unwritten) : a ∈ S.inflight ∨ a ∈ S.ready := by
  rcases mem_append.mp ha with ha | ha
  · refine .inl ?_
    rcases mem_append.mp ha with ha | ha
    · obtain ⟨q, hq, htarget⟩ := mem_filterMap.mp ha
      cases q with
      | fsync s => cases htarget
      | write s linked =>
        obtain rfl : s = a := Option.some.inj htarget
        have hcount : Sqe.count s (.write s linked) ≤ S.sqeCount s := le_sum_of_mem (mem_map_of_mem hq)
        have hpos : 0 < Sqe.count s (.write s linked) := by cases linked <;> simp [Sqe.count]
        exact (h.busy s (by omega)).1
    · exact h.owner a (owner_of_held (Option.mem_toList.mp ha))
  · exact .inr ha

/-! ### What the log sees of a step -/

/-- What a step of a thread does to the slots that are not written, and to the current one. -/
inductive Logged (S T : Slots) : Prop where
  /-- Nothing. -/
  | same (bufs : T.bufs = S.bufs) (cur : T.curBuf = S.curBuf) (appended : T.appended = S.appended)
  /-- Bytes are added to the current slot. -/
  | added (raw : Bytes) (bufs : T.bufs = S.bufs) (cur : T.curBuf = S.curBuf ++ raw)
      (appended : T.appended = S.appended ++ raw)
  /-- The current slot is handed over. -/
  | handed (hne : S.curBuf ≠ []) (bufs : T.bufs = S.bufs ++ [S.curBuf]) (cur : T.curBuf = [])
      (appended : T.appended = S.appended)

theorem bufs_congr (hunwritten : T.unwritten = S.unwritten)
    (hbuf : ∀ a ∈ S.unwritten, (T.slots a).buf = (S.slots a).buf) : T.bufs = S.bufs := by
  rw [bufs, bufs, hunwritten]
  exact map_congr_left hbuf

/-- A slot that is neither ready nor in flight changes. -/
theorem bufs_update (h : S.Owned) (hs : s ∉ S.inflight ++ S.ready) (hunwritten : T.unwritten = S.unwritten)
    (hslots : ∀ a, a ≠ s → T.slots a = S.slots a) : T.bufs = S.bufs := by
  refine bufs_congr hunwritten fun a ha => congrArg WriteSlot.buf (hslots a ?_)
  rintro rfl
  exact hs (mem_append.mpr (mem_unwritten h ha))

theorem logged_thread (hunwritten : T.unwritten = S.unwritten) (hcur : T.cur = S.cur)
    (hbuf : ∀ a, (T.slots a).buf = (S.slots a).buf) (happended : T.appended = S.appended) : Logged S T := by
  refine .same (bufs_congr hunwritten fun a _ => hbuf a) ?_ happended
  simp only [curBuf, hcur, hbuf]

/-- **What a step of a thread does to the log**, if no submission fails. -/
theorem logged_moved (h : S.Ok n) (hmove : Moved S T) (hT : ∀ drain, T.thread ≠ .failed drain) :
    T.file = S.file ∧ Logged S T := by
  cases hmove with
  | idle => exact ⟨rfl, .same rfl rfl rfl⟩
  | popCompleted => exact ⟨rfl, .same rfl rfl rfl⟩
  | @addBytes raw cap s hcur =>
    have hs := h.placed.idle (.inr (.inl hcur))
    refine ⟨rfl, .added raw (bufs_update h.owned hs rfl fun a ha => update_of_ne ha ..) ?_ rfl⟩
    have hself : ((S.addBytes raw cap s).slots s).buf = (S.slots s).buf ++ raw := by simp [addBytes, modify]
    rw [curBuf_of_cur (S := S.addBytes raw cap s) hcur, hself, curBuf_of_cur hcur]
  | @takeFree s free hcur hfree =>
    have hs := h.placed.idle (a := s) (.inl (hfree ▸ mem_cons_self))
    refine ⟨rfl, .same (bufs_update h.owned hs rfl fun a ha => update_of_ne ha ..) ?_ rfl⟩
    have hself : ((S.takeFree s free).slots s).buf = [] := by simp [takeFree, modify]
    rw [curBuf_of_cur (S := S.takeFree s free) rfl, hself, curBuf_of_none hcur]
  | @pushReady s hcur hne =>
    refine ⟨rfl, .handed (curBuf_of_cur hcur ▸ hne) ?_ rfl rfl⟩
    rw [curBuf_of_cur hcur]
    simp only [bufs, unwritten, pushReady, map_append, map_cons, map_nil, append_assoc]
  | @slotPushFree s taken htaken =>
    have hs : s ∈ S.taken := htaken ▸ mem_cons_self
    have hother (a : ℕ) (ha : a ≠ s) : (S.slotPushFree s taken).slots a = S.slots a := update_of_ne ha ..
    refine ⟨rfl, .same (bufs_update h.owned (h.placed.idle (.inr (.inr hs))) rfl hother) ?_ rfl⟩
    cases hc : S.cur with
    | none => rw [curBuf_of_none hc, curBuf_of_none (S := S.slotPushFree s taken) hc]
    | some c =>
      have hcs : c ≠ s := fun hcs => h.placed.notMem_taken hc (hcs ▸ hs)
      rw [curBuf_of_cur hc, curBuf_of_cur (S := S.slotPushFree s taken) hc, hother c hcs]
  | turn hthread ht =>
    refine ⟨rfl, logged_thread ?_ rfl (fun _ => rfl) rfl⟩
    simp [unwritten, held_of_between hthread, held_of_between ht]
  | @fail drain hthread =>
    refine ⟨rfl, logged_thread ?_ rfl (fun _ => rfl) rfl⟩
    have hheld : S.thread.held = none := by rw [hthread]; rfl
    simp [unwritten, hheld, held_of_between (between_afterLoop drain)]
  | popReady hthread hready =>
    refine ⟨rfl, logged_thread ?_ rfl (fun _ => rfl) rfl⟩
    simp [unwritten, popReady, hthread, hready, ThreadAt.held]
  | abort | halfSubmit => exact absurd rfl (hT _)
  | submit hthread =>
    refine ⟨rfl, logged_thread ?_ rfl (fun _ => rfl) rfl⟩
    simp [unwritten, hthread, ThreadAt.held, Sqe.target]
  | pushCompleted hthread =>
    refine ⟨rfl, logged_thread ?_ rfl (fun _ => rfl) rfl⟩
    simp [unwritten, pushCompleted, hthread, ThreadAt.held]
  | @reap s res cqes drain hthread hcqes =>
    have hbuf (a : ℕ) : ((S.countCqe s res cqes).slots a).buf = (S.slots a).buf := by
      by_cases has : a = s
      · rw [has]
        simp [countCqe, modify]
      · exact congrArg WriteSlot.buf (update_of_ne has ..)
    unfold reapCompletion takeSeen
    split <;> refine ⟨rfl, logged_thread ?_ rfl hbuf rfl⟩
    · simp [unwritten, countCqe, modify, hthread, ThreadAt.held]
    · rfl

theorem targets_split {q : Sqe} (hq : S.sqes[i]? = some q) : S.sqes.filterMap Sqe.target =
    (S.sqes.take i).filterMap Sqe.target ++ (q.target.toList ++ (S.sqes.drop (i + 1)).filterMap Sqe.target) := by
  nth_rewrite 1 [sqes_split hq]
  rw [filterMap_append]
  cases q <;> rfl

theorem bufs_carryOutFsync (hq : S.sqes[i]? = some (.fsync s)) (res : Option ℕ) :
    (S.carryOutFsync i s res).bufs = S.bufs := by
  refine bufs_congr ?_ fun _ _ => rfl
  rw [unwritten, unwritten, targets_split hq]
  simp [carryOutFsync, Sqe.target]

/-- A write that is carried out takes the slot out of those that wait. -/
theorem bufs_carryOut {linked : Bool} (hq : S.sqes[i]? = some (.write s linked)) (res : Option ℕ) :
    let pre := ((S.sqes.take i).filterMap Sqe.target).map fun s => (S.slots s).buf
    ∃ post, S.bufs = pre ++ (S.slots s).buf :: post ∧ (S.carryOut i s linked res).bufs = pre ++ post := by
  refine ⟨((S.sqes.drop (i + 1)).filterMap Sqe.target ++ S.thread.held.toList ++ S.ready).map fun s => (S.slots s).buf,
    ?_, ?_⟩
  · simp [bufs, unwritten, targets_split hq, Sqe.target]
  · simp only [bufs, unwritten, carryOut, filterMap_append]
    split <;> simp [Sqe.target, filterMap_cons]

/-! ### Runs of the log -/

/-- No system call has failed. -/
def Healthy (S : Slots) : Prop := S.fatal = false ∧ ∀ drain, S.thread ≠ .failed drain

/-- Writes are carried out in full. -/
def full (S : Slots) : SlotInput → Bool
  | .kernel i res =>
    match S.sqes[i]? with
    | some (.write s _) => res.any ((S.slots s).buf.length ≤ ·)
    | _ => true
  | _ => true

theorem healthy_of_moved (hmove : Moved S T) (hT : T.Healthy) : S.Healthy := by
  have hthread {t : ThreadAt} (h : S.thread = t) (ht : ∀ drain, t ≠ .failed drain) (drain : Bool) :
      S.thread ≠ .failed drain := h ▸ ht drain
  cases hmove with
  | idle | addBytes | takeFree | pushReady | popCompleted | slotPushFree => exact hT
  | turn hbetween =>
    refine ⟨hT.1, fun drain hfailed => ?_⟩
    rw [hfailed] at hbetween
    cases hbetween
  | fail => exact absurd hT.1 nofun
  | abort | halfSubmit => exact absurd rfl (hT.2 _)
  | popReady hsub => exact ⟨hT.1, hthread hsub nofun⟩
  | submit hhold => exact ⟨hT.1, hthread hhold nofun⟩
  | pushCompleted hpush => exact ⟨hT.1, hthread hpush nofun⟩
  | reap hreap =>
    refine ⟨?_, hthread hreap nofun⟩
    have hfatal := hT.1
    unfold reapCompletion takeSeen at hfatal
    split at hfatal
    · exact (Bool.or_eq_false_iff.mp hfatal).1
    · exact hfatal

theorem healthy_of_moves (hmoves : ReflTransGen Moved S T) (hT : T.Healthy) : S.Healthy := by
  induction hmoves using ReflTransGen.head_induction_on with
  | refl => exact hT
  | head hmove _ ih => exact healthy_of_moved hmove ih

theorem healthy_of_run {js : List SlotInput} (hT : (js.foldl Slots.step S).Healthy) : S.Healthy := by
  induction js generalizing S with
  | nil => exact hT
  | cons j js ih =>
    have hstep : (S.step j).Healthy := ih hT
    rcases S.step_moves j with ⟨i, res, rfl⟩ | hmoves
    · simp only [Slots.step, kernelStep] at hstep
      split at hstep <;> exact hstep
    · exact healthy_of_moves hmoves hstep

end Slots

/-- What the slots do to the log. -/
inductive LogStep (A : Aof) : Aof → Prop where
  /-- Bytes are added to the current slot. -/
  | buffer (raw : Bytes) : LogStep A (A.buffer raw)
  /-- The current slot is handed over. -/
  | handoff : LogStep A A.handoff
  /-- The kernel has written one of the slots. -/
  | complete (i : ℕ) : LogStep A (A.complete i)

namespace Slots

open Relation (ReflTransGen)

variable {S T : Slots} {A : Aof} {n i : ℕ}

/-- The log has the file, the slots that are not written, and the current one. -/
structure Refines (S : Slots) (A : Aof) : Prop where
  file : A.file = S.file
  outstanding : A.outstanding = S.bufs
  cur : A.cur = S.curBuf

theorem Refines.moved (h : S.Refines A) (hok : S.Ok n) (hmove : Moved S T) (hT : T.Healthy) :
    ∃ A', ReflTransGen LogStep A A' ∧ T.Refines A' := by
  obtain ⟨hfile, hlogged⟩ := logged_moved hok hmove hT.2
  cases hlogged with
  | same hbufs hcur =>
    exact ⟨A, .refl, h.file.trans hfile.symm, h.outstanding.trans hbufs.symm, h.cur.trans hcur.symm⟩
  | added raw hbufs hcur =>
    refine ⟨_, .single (.buffer raw), h.file.trans hfile.symm, h.outstanding.trans hbufs.symm, ?_⟩
    rw [Aof.buffer, h.cur, hcur]
  | handed hne hbufs hcur =>
    refine ⟨_, .single .handoff, ?_⟩
    rw [Aof.handoff, if_neg (h.cur ▸ hne)]
    exact ⟨h.file.trans hfile.symm, by rw [h.outstanding, h.cur, hbufs], hcur.symm⟩

theorem Refines.moves (h : S.Refines A) (hok : S.Ok n) (hmoves : ReflTransGen Moved S T) (hT : T.Healthy) :
    ∃ A', ReflTransGen LogStep A A' ∧ T.Refines A' := by
  induction hmoves using ReflTransGen.head_induction_on generalizing A with
  | refl => exact ⟨A, .refl, h⟩
  | head hmove hrest ih =>
    obtain ⟨A₁, hsteps, h₁⟩ := h.moved hok hmove (healthy_of_moves hrest hT)
    obtain ⟨A₂, hsteps', h₂⟩ := ih h₁ (hok.moved hmove)
    exact ⟨A₂, hsteps.trans hsteps', h₂⟩

/-- A write that the kernel carries out in full is one of the log. -/
theorem Refines.kernel (h : S.Refines A) {res : Option ℕ} (hfull : S.full (.kernel i res) = true) :
    ∃ A', ReflTransGen LogStep A A' ∧ (S.kernelStep i res).Refines A' := by
  unfold kernelStep
  cases hq : S.sqes[i]? with
  | none => exact ⟨A, .refl, h⟩
  | some q =>
    cases q with
    | fsync s => exact ⟨A, .refl, h.file, h.outstanding.trans (bufs_carryOutFsync hq res).symm, h.cur⟩
    | write s linked =>
      obtain ⟨m, hres, hm⟩ : ∃ m, res = some m ∧ (S.slots s).buf.length ≤ m := by
        simpa [full, hq, Option.any_eq_true] using hfull
      obtain ⟨post, hbufs, hafter⟩ := bufs_carryOut hq res
      generalize (map _ _ : List Bytes) = pre at hbufs hafter
      have hat : A.outstanding[pre.length]? = some (S.slots s).buf := by
        rw [h.outstanding, hbufs, getElem?_append_right le_rfl, Nat.sub_self, getElem?_cons_zero]
      refine ⟨_, .single (.complete pre.length), ?_⟩
      rw [Aof.complete, hat]
      refine ⟨?_, ?_, h.cur⟩
      · simp only [carryOut, h.file, hres, Option.map_some, Option.getD_some, min_eq_right hm, take_length]
      · rw [hafter, h.outstanding, hbufs, eraseIdx_append_of_length_le le_rfl, Nat.sub_self, eraseIdx_cons_zero]

theorem Refines.run {js : List SlotInput} (h : S.Refines A) (hok : S.Ok n)
    (hfull : GuardedRun Slots.step (fun S j => S.full j = true) S js) (hT : (js.foldl Slots.step S).Healthy) :
    ∃ A', ReflTransGen LogStep A A' ∧ (js.foldl Slots.step S).Refines A' := by
  induction js generalizing S A with
  | nil => exact ⟨A, .refl, h⟩
  | cons j js ih =>
    have hstep : ∃ A', ReflTransGen LogStep A A' ∧ (S.step j).Refines A' := by
      rcases S.step_moves j with ⟨i, res, rfl⟩ | hmoves
      · exact h.kernel hfull.1
      · exact h.moves hok hmoves (healthy_of_run hT)
    obtain ⟨A₁, hsteps, h₁⟩ := hstep
    obtain ⟨A₂, hsteps', h₂⟩ := ih h₁ (hok.step j) hfull.2 hT
    exact ⟨A₂, hsteps.trans hsteps', h₂⟩

end Slots

/-- **Without failures the slots carry out the log**: after any steps of the threads and of the kernel there is a run
of the log to a state with the same file, the same bytes to be written, slot by slot, and the same current slot. -/
theorem slots_carry_out_log (perCommand : Bool) (file : Bytes) (is : List SlotInput)
    (hfull : GuardedRun Slots.step (fun S i => S.full i = true) (.init perCommand file) is)
    (hhealthy : (is.foldl Slots.step (.init perCommand file)).Healthy) :
    ∃ A, Relation.ReflTransGen LogStep { file := file } A ∧
      (is.foldl Slots.step (.init perCommand file)).Refines A :=
  Slots.Refines.run ⟨rfl, rfl, rfl⟩ (Slots.ok_init perCommand file) hfull hhealthy

end PocketKv.Persistence
