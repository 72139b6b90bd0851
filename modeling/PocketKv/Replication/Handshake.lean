import PocketKv.Library.Run

/-!
# The barrier handshake
-/

namespace PocketKv.Replication

open Library

variable {S S' : Handshake} {i : HandshakeInput}

/-- Where the proxy is in a round of its loop. -/
inductive ProxyPc where
  | read
  | buffer
  | answer
  | forward
  | unanswer
  deriving DecidableEq

/-- Where the master is in `repl_barrier_begin`. -/
inductive MasterPc where
  | out
  | clear
  | check
  | lower
  | waitDown
  | clearAgain
  | raise
  | waitUp
  | rollBack
  deriving DecidableEq

/-- The two cells of the control map, with the state of both sides. -/
structure Handshake where
  fullsyncState : Bool := false
  proxyState : Bool := false
  /-- `g_fs_req_seen` of the proxy. -/
  seen : Bool := false
  /-- `g_state` of the proxy is BUFFERING. -/
  buffering : Bool := false
  proxy : ProxyPc := .read
  master : MasterPc := .out
  /-- `g_barrier_active` of the master. -/
  active : Bool := false
  /-- `repl_barrier_begin` returned 0, and FULLSYNC_STATE was not cleared since. -/
  held : Bool := false
  rounds : ℕ := 0
  polled : Bool := false
  /-- What `repl_barrier_begin` has returned so far; `true` stands for 0. -/
  results : List Bool := []
  deriving DecidableEq

/-- What happens. -/
inductive HandshakeInput where
  | proxy
  | fault
  /-- The master calls `repl_barrier_begin`. -/
  | begin
  /-- The master goes on in `repl_barrier_begin`; in a wait, it polls. -/
  | master
  | expire
  /-- `repl_barrier_release`; `resume` tells whether RESUME could be sent. -/
  | release (resume : Bool)
  /-- `repl_barrier_cancel`. -/
  | cancel
  deriving DecidableEq

namespace Handshake

/-- A round of the loop is over. -/
def roundDone (S : Handshake) : Handshake := { S with proxy := .read, rounds := S.rounds + 1 }

/-- A step of the proxy. -/
def proxyStep (S : Handshake) : Handshake :=
  match S.proxy with
  | .read =>
    if S.fullsyncState && !S.seen then { S with seen := true, proxy := .buffer }
    else if !S.fullsyncState && S.seen then { S with seen := false, proxy := .forward }
    else S.roundDone
  | .buffer => { S with buffering := true, proxy := .answer }
  | .answer => { S with proxyState := true }.roundDone
  | .forward => { S with buffering := false, proxy := .unanswer }
  | .unanswer => { S with proxyState := false }.roundDone

/-- `repl_barrier_begin` returns. -/
def return_ (ok : Bool) (S : Handshake) : Handshake := { S with master := .out, results := S.results ++ [ok] }

/-- The master begins to wait. -/
def await (pc : MasterPc) (S : Handshake) : Handshake := { S with master := pc, rounds := 0, polled := false }

/-- A poll that does not find what it waits for. -/
def pollAgain (S : Handshake) : Handshake := { S with polled := S.polled || decide (2 ≤ S.rounds) }

/-- A step of `repl_barrier_begin`. -/
def masterStep (S : Handshake) : Handshake :=
  match S.master with
  | .out => S
  | .clear => { S with proxyState := false, master := .check }
  | .check => { S with master := if S.fullsyncState then .lower else .clearAgain }
  | .lower => { S with fullsyncState := false, held := false }.await .waitDown
  | .waitDown => if S.proxyState then S.pollAgain else { S with master := .clearAgain }
  | .clearAgain => { S with proxyState := false, master := .raise }
  | .raise => { S with fullsyncState := true }.await .waitUp
  | .waitUp => if S.proxyState then { S with active := true, held := true }.return_ true else S.pollAgain
  | .rollBack => { S with fullsyncState := false, held := false }.return_ false

/-- The reactor is single-threaded: it calls nothing else while it is in `repl_barrier_begin`. -/
def step (S : Handshake) : HandshakeInput → Handshake
  | .proxy => S.proxyStep
  | .fault => if S.proxy = .read then { S with buffering := true } else S
  | .begin =>
    if S.master ≠ .out then S else if S.active then S.return_ true else { S with master := .clear }
  | .master => S.masterStep
  | .expire =>
    match S.master with
    | .waitDown => S.return_ false
    | .waitUp => { S with master := .rollBack }
    | _ => S
  | .release resume =>
    if S.master ≠ .out ∨ !S.active then S
    else if resume then { S with active := false, fullsyncState := false, held := false }
    else { S with active := false }
  | .cancel => if S.master ≠ .out then S else { S with active := false }

/-! ### What a step can do -/

/-- What a step can do, and where. -/
inductive Move (S : Handshake) : HandshakeInput → Handshake → Prop
  | skip (i : HandshakeInput) : Move S i S
  | proxy : Move S .proxy S.proxyStep
  | fault (hread : S.proxy = .read) : Move S .fault { S with buffering := true }
  | again (ha : S.active = true) : Move S .begin (S.return_ true)
  | start (ha : S.active = false) : Move S .begin { S with master := .clear }
  | goOn {pc : MasterPc} {answer : Bool} (hm : S.master ≠ .out) (hpc : pc ∈ [.check, .lower, .clearAgain, .raise])
      (hs : answer = S.proxyState ∨ answer = false) : Move S .master { S with proxyState := answer, master := pc }
  | poll (hm : S.master = .waitDown ∧ S.proxyState = true ∨ S.master = .waitUp ∧ S.proxyState = false) :
      Move S .master S.pollAgain
  | lower (hm : S.master = .lower) :
      Move S .master ({ S with fullsyncState := false, held := false }.await .waitDown)
  | raise (hm : S.master = .raise) : Move S .master ({ S with fullsyncState := true }.await .waitUp)
  | grant (hm : S.master = .waitUp) (hs : S.proxyState = true) :
      Move S .master ({ S with active := true, held := true }.return_ true)
  | rollBack (hm : S.master = .rollBack) :
      Move S .master ({ S with fullsyncState := false, held := false }.return_ false)
  | expireDown (hm : S.master = .waitDown) : Move S .expire (S.return_ false)
  | expireUp (hm : S.master = .waitUp) : Move S .expire { S with master := .rollBack }
  | release (i : HandshakeInput) (hm : S.master = .out) :
      Move S i { S with active := false, fullsyncState := false, held := false }
  | drop (i : HandshakeInput) : Move S i { S with active := false }

lemma masterStep_move (S : Handshake) : Move S .master S.masterStep := by
  unfold masterStep
  split <;> rename_i hm
  · exact .skip _
  · exact .goOn (by simp [hm]) (by simp) (.inr rfl)
  · exact .goOn (by simp [hm]) (by split <;> simp) (.inl rfl)
  · exact .lower hm
  · split
    · exact .poll (.inl ⟨hm, ‹_›⟩)
    · exact .goOn (by simp [hm]) (by simp) (.inl rfl)
  · exact .goOn (by simp [hm]) (by simp) (.inr rfl)
  · exact .raise hm
  · split
    · exact .grant hm ‹_›
    · exact .poll (.inr ⟨hm, eq_false_of_ne_true ‹_›⟩)
  · exact .rollBack hm

lemma step_move (S : Handshake) (i : HandshakeInput) : Move S i (S.step i) := by
  cases i with
  | proxy => exact .proxy
  | master => exact masterStep_move S
  | fault =>
    simp only [step]
    split
    · exact .fault ‹_›
    · exact .skip _
  | begin =>
    simp only [step]
    split
    · exact .skip _
    split
    · exact .again ‹_›
    · exact .start (eq_false_of_ne_true ‹_›)
  | expire =>
    simp only [step]
    split
    · exact .expireDown ‹_›
    · exact .expireUp ‹_›
    · exact .skip _
  | release resume =>
    simp only [step]
    split
    · exact .skip _
    rename_i hm
    simp only [not_or, not_not] at hm
    split
    · exact .release _ hm.1
    · exact .drop _
  | cancel =>
    simp only [step]
    split
    · exact .skip _
    · exact .drop _

/-! ### What the proxy keeps -/

/-- What holds at each place of the loop. -/
def Proxied (S : Handshake) : Prop :=
  match S.proxy with
  | .read => (S.seen = true → S.buffering = true) ∧ (S.seen = false → S.proxyState = false)
  | .buffer => S.seen = true ∧ S.proxyState = false
  | .answer => S.seen = true ∧ S.buffering = true ∧ S.proxyState = false
  | .forward => S.seen = false
  | .unanswer => S.seen = false

lemma Proxied.congr (h : S.Proxied) (hproxy : S'.proxy = S.proxy) (hseen : S'.seen = S.seen)
    (hbuf : S'.buffering = S.buffering) (hstate : S'.proxyState = S.proxyState ∨ S'.proxyState = false) :
    S'.Proxied := by
  unfold Proxied at h ⊢
  rw [hproxy, hseen, hbuf]
  cases hp : S.proxy <;> simp only [hp] at h ⊢ <;> rcases hstate with hs | hs <;> simp_all

lemma Proxied.proxyStep (h : S.Proxied) : S.proxyStep.Proxied := by
  unfold Proxied at h
  cases hp : S.proxy with
  | read =>
    simp only [hp] at h
    simp only [Handshake.proxyStep, hp]
    split
    · simp_all [Proxied]
    split
    · simp [Proxied]
    · simpa [Proxied, roundDone] using h
  | buffer =>
    simp only [hp] at h
    simpa [Handshake.proxyStep, hp, Proxied] using h
  | answer =>
    simp only [hp] at h
    simp [Handshake.proxyStep, hp, Proxied, roundDone, h.1, h.2.1]
  | forward =>
    simp only [hp] at h
    simpa [Handshake.proxyStep, hp, Proxied] using h
  | unanswer =>
    simp only [hp] at h
    simp [Handshake.proxyStep, hp, Proxied, roundDone, h]

lemma Proxied.move (h : S.Proxied) (hmove : Move S i S') : S'.Proxied := by
  cases hmove with
  | skip => exact h
  | proxy => exact h.proxyStep
  | fault hread =>
    unfold Proxied at h ⊢
    simp only [hread] at h ⊢
    exact ⟨fun _ => trivial, h.2⟩
  | goOn _ _ hs => exact h.congr rfl rfl rfl hs
  | _ => exact h.congr rfl rfl rfl (.inl rfl)

/-! ### The barrier stays up -/

/-- When FULLSYNC_STATE is set, there is no answer that the proxy is about to take back. -/
def settled (S : Handshake) : HandshakeInput → Bool
  | .master => S.master ≠ .raise || !S.proxyState || (S.proxy ≠ .forward && S.proxy ≠ .unanswer)
  | _ => true

/-- The proxy has answered. -/
def Answered (S : Handshake) : Prop := S.fullsyncState = true ∧ S.proxy = .read ∧ S.seen = true

/-- The invariant of the runs in which no answer is taken back. -/
structure Holds (S : Handshake) : Prop where
  proxied : S.Proxied
  held : S.held = true → S.Answered
  active : S.active = true → S.held = true ∧ S.master = .out
  waitUp : S.master = .waitUp → S.fullsyncState = true ∧ (S.proxyState = true → S.Answered)

lemma Answered.proxyStep (h : S.Answered) : S.proxyStep = S.roundDone := by
  obtain ⟨hfs, hp, hs⟩ := h
  simp [Handshake.proxyStep, hfs, hp, hs]

lemma proxyStep_master (S : Handshake) :
    S.proxyStep.master = S.master ∧ S.proxyStep.active = S.active ∧ S.proxyStep.held = S.held ∧
      S.proxyStep.fullsyncState = S.fullsyncState ∧ S.proxyStep.polled = S.polled ∧
      S.proxyStep.results = S.results := by
  unfold Handshake.proxyStep
  split
  · split
    · exact ⟨rfl, rfl, rfl, rfl, rfl, rfl⟩
    split <;> exact ⟨rfl, rfl, rfl, rfl, rfl, rfl⟩
  all_goals exact ⟨rfl, rfl, rfl, rfl, rfl, rfl⟩

lemma answered_proxyStep (h : S.Proxied) (hfs : S.fullsyncState = true)
    (ha : S.proxyState = true → S.Answered) (hs : S.proxyStep.proxyState = true) : S.proxyStep.Answered := by
  have hkeep (hsame : S.proxyState = true) : S.proxyStep.Answered := by
    have hanswered := ha hsame
    rw [hanswered.proxyStep]
    exact ⟨hanswered.1, rfl, hanswered.2.2⟩
  cases hp : S.proxy with
  | read =>
    refine hkeep ?_
    simp only [Handshake.proxyStep, hp, hfs, Bool.true_and, Bool.not_true, Bool.false_and, Bool.false_eq_true,
      if_false] at hs
    split at hs <;> exact hs
  | buffer => exact hkeep (by simpa [Handshake.proxyStep, hp] using hs)
  | forward => exact hkeep (by simpa [Handshake.proxyStep, hp] using hs)
  | answer =>
    have hseen : S.seen = true := by
      unfold Proxied at h
      simp only [hp] at h
      exact h.1
    simp [Answered, Handshake.proxyStep, hp, roundDone, hfs, hseen]
  | unanswer => simp [Handshake.proxyStep, hp, roundDone] at hs

lemma Holds.proxyStep (h : S.Holds) : S.proxyStep.Holds := by
  obtain ⟨hmaster, hactive, hheld, hfs, -, -⟩ := proxyStep_master S
  refine ⟨h.proxied.proxyStep, fun hh => ?_, fun ha => ?_, fun hw => ?_⟩
  · have hanswered := h.held (hheld ▸ hh)
    rw [hanswered.proxyStep]
    exact ⟨hanswered.1, rfl, hanswered.2.2⟩
  · rw [hheld, hmaster]
    exact h.active (hactive ▸ ha)
  · obtain ⟨hset, ha⟩ := h.waitUp (hmaster ▸ hw)
    exact ⟨hfs.trans hset, answered_proxyStep h.proxied hset ha⟩

lemma Proxied.seen_of_answer (h : S.Proxied) (hs : S.proxyState = true)
    (hforward : S.proxy ≠ .forward) (hunanswer : S.proxy ≠ .unanswer) : S.proxy = .read ∧ S.seen = true := by
  unfold Proxied at h
  cases hp : S.proxy with
  | read =>
    simp only [hp] at h
    refine ⟨rfl, ?_⟩
    by_contra hseen
    simp [h.2 (by simpa using hseen)] at hs
  | buffer =>
    simp only [hp] at h
    simp [h.2] at hs
  | answer =>
    simp only [hp] at h
    simp [h.2.2] at hs
  | forward => exact absurd hp hforward
  | unanswer => exact absurd hp hunanswer

lemma Holds.step (h : S.Holds) (hg : S.settled i = true) : (S.step i).Holds := by
  have hmove := step_move S i
  have hproxied := h.proxied.move hmove
  have hidle (hm : S.master ≠ .out) : S.active ≠ true := fun ha => hm (h.active ha).2
  generalize S.step i = S' at hmove hproxied
  cases hmove with
  | skip => exact h
  | proxy => exact h.proxyStep
  | fault => exact ⟨hproxied, h.held, h.active, h.waitUp⟩
  | again ha => exact ⟨hproxied, h.held, fun ha => ⟨(h.active ha).1, rfl⟩, nofun⟩
  | start ha => exact ⟨hproxied, h.held, fun hyes => absurd hyes (by simp [ha]), nofun⟩
  | goOn hm hpc => exact ⟨hproxied, h.held, fun ha => absurd ha (hidle hm), fun hw => by simp_all⟩
  | poll => exact ⟨hproxied, h.held, h.active, h.waitUp⟩
  | lower hm => exact ⟨hproxied, nofun, fun ha => absurd ha (hidle (by simp [hm])), nofun⟩
  | raise hm =>
    refine ⟨hproxied, fun hh => ⟨rfl, (h.held hh).2⟩, fun ha => absurd ha (hidle (by simp [hm])),
      fun _ => ⟨rfl, fun hs => ⟨rfl, ?_⟩⟩⟩
    have hs : S.proxyState = true := hs
    have hback : S.proxy ≠ .forward ∧ S.proxy ≠ .unanswer := by simpa [settled, hm, hs] using hg
    exact h.proxied.seen_of_answer hs hback.1 hback.2
  | grant hm hs => exact ⟨hproxied, fun _ => (h.waitUp hm).2 hs, fun _ => ⟨rfl, rfl⟩, nofun⟩
  | rollBack hm => exact ⟨hproxied, nofun, fun ha => absurd ha (hidle (by simp [hm])), nofun⟩
  | expireDown => exact ⟨hproxied, h.held, fun ha => ⟨(h.active ha).1, rfl⟩, nofun⟩
  | expireUp hm => exact ⟨hproxied, h.held, fun ha => absurd ha (hidle (by simp [hm])), nofun⟩
  | release _ hm => exact ⟨hproxied, nofun, nofun, fun hw => by simp [hm] at hw⟩
  | drop => exact ⟨hproxied, h.held, nofun, h.waitUp⟩

/-! ### The proxy answers -/

/-- When FULLSYNC_STATE is set, the proxy has seen it cleared, or its answer is there or on its way. -/
def attentive (S : Handshake) : HandshakeInput → Bool
  | .master => S.master ≠ .raise || !S.seen || S.proxyState || S.proxy ≠ .read
  | _ => true

/-- The deadline does not pass before the proxy has completed two rounds and the master has polled. -/
def patient (S : Handshake) : HandshakeInput → Bool
  | .expire => S.polled
  | _ => true

/-- Where the proxy is in a wait for 0, after so many rounds. -/
def Lowering (S : Handshake) : Prop :=
  S.rounds = 0 ∨ (S.proxy = .read ∧ S.seen = false) ∨
    (S.rounds = 1 ∧ ((S.proxy = .read ∧ S.seen = true) ∨ S.proxy = .forward ∨ S.proxy = .unanswer))

/-- Where it is in a wait for 1. -/
def Raising (S : Handshake) : Prop :=
  (S.proxy = .read ∧ S.seen = true ∧ S.proxyState = true) ∨
    (S.rounds = 0 ∧ (S.proxy = .read → S.seen = false)) ∨
    (S.rounds = 1 ∧ ((S.proxy = .read ∧ S.seen = false) ∨ S.proxy = .buffer ∨ S.proxy = .answer))

/-- The invariant of the runs in which the proxy is in time. -/
structure Waits (S : Handshake) : Prop where
  proxied : S.Proxied
  waitDown : S.master = .waitDown → S.fullsyncState = false ∧ S.polled = false ∧ S.Lowering
  waitUp : S.master = .waitUp → S.fullsyncState = true ∧ S.polled = false ∧ S.Raising
  noRollBack : S.master ≠ .rollBack
  /-- `repl_barrier_begin` has returned 0 only. -/
  results : ∀ r ∈ S.results, r = true

lemma Lowering.proxyStep (hp : S.Proxied) (hfs : S.fullsyncState = false) (h : S.Lowering) :
    S.proxyStep.Lowering := by
  unfold Proxied at hp
  unfold Lowering at h ⊢
  cases hpc : S.proxy <;> simp only [hpc] at hp <;>
    simp only [Handshake.proxyStep, hpc, hfs, roundDone, Bool.false_and, Bool.false_eq_true, if_false, Bool.not_false,
      Bool.true_and]
  case read =>
    cases hs : S.seen <;> simp_all
  all_goals simp_all

lemma Raising.proxyStep (hp : S.Proxied) (hfs : S.fullsyncState = true) (h : S.Raising) : S.proxyStep.Raising := by
  unfold Proxied at hp
  unfold Raising at h ⊢
  cases hpc : S.proxy <;> simp only [hpc] at hp <;>
    simp only [Handshake.proxyStep, hpc, hfs, roundDone, Bool.true_and, Bool.not_true, Bool.false_and,
      Bool.false_eq_true, if_false]
  case read =>
    cases hs : S.seen <;> simp_all
  all_goals simp_all

lemma Lowering.answer (hp : S.Proxied) (h : S.Lowering) (hr : 2 ≤ S.rounds) : S.proxyState = false := by
  rcases h with h | ⟨hread, hseen⟩ | ⟨h, -⟩
  · omega
  · unfold Proxied at hp
    simp only [hread] at hp
    exact hp.2 hseen
  · omega

lemma Raising.answer (h : S.Raising) (hr : 2 ≤ S.rounds) : S.proxyState = true := by
  rcases h with h | ⟨h, -⟩ | ⟨h, -⟩
  · exact h.2.2
  · omega
  · omega

lemma Waits.proxyStep (h : S.Waits) : S.proxyStep.Waits := by
  obtain ⟨hmaster, -, -, hfs, hpolled, hresults⟩ := proxyStep_master S
  refine ⟨h.proxied.proxyStep, fun hw => ?_, fun hw => ?_, hmaster ▸ h.noRollBack, hresults ▸ h.results⟩
  · obtain ⟨hcell, hp, hl⟩ := h.waitDown (hmaster ▸ hw)
    exact ⟨hfs.trans hcell, hpolled.trans hp, hl.proxyStep h.proxied hcell⟩
  · obtain ⟨hcell, hp, hr⟩ := h.waitUp (hmaster ▸ hw)
    exact ⟨hfs.trans hcell, hpolled.trans hp, hr.proxyStep h.proxied hcell⟩

lemma Waits.step (h : S.Waits) (ha : S.attentive i = true) (hp : S.patient i = true) : (S.step i).Waits := by
  have hmove := step_move S i
  have hproxied := h.proxied.move hmove
  have hgranted : ∀ r ∈ S.results ++ [true], r = true := fun r hr =>
    (List.mem_append.mp hr).elim (h.results r) List.mem_singleton.mp
  generalize S.step i = S' at hmove hproxied
  cases hmove with
  | skip => exact h
  | proxy => exact h.proxyStep
  | fault => exact ⟨hproxied, h.waitDown, h.waitUp, h.noRollBack, h.results⟩
  | again => exact ⟨hproxied, nofun, nofun, nofun, hgranted⟩
  | start => exact ⟨hproxied, nofun, nofun, nofun, h.results⟩
  | goOn _ hpc =>
    exact ⟨hproxied, fun hw => by simp_all, fun hw => by simp_all, fun hw => by simp_all, h.results⟩
  | poll hm =>
    -- After two rounds the poll would have found what it waits for.
    rcases hm with ⟨hm, hs⟩ | ⟨hm, hs⟩
    · obtain ⟨hcell, hnot, hl⟩ := h.waitDown hm
      have hearly : ¬ 2 ≤ S.rounds := fun hr => by simp [hl.answer h.proxied hr] at hs
      exact ⟨hproxied, fun _ => ⟨hcell, by simp [pollAgain, hnot, hearly], hl⟩, fun hw => by simp [pollAgain, hm] at hw,
        h.noRollBack, h.results⟩
    · obtain ⟨hcell, hnot, hr⟩ := h.waitUp hm
      have hearly : ¬ 2 ≤ S.rounds := fun hrounds => by simp [hr.answer hrounds] at hs
      exact ⟨hproxied, fun hw => by simp [pollAgain, hm] at hw, fun _ => ⟨hcell, by simp [pollAgain, hnot, hearly], hr⟩,
        h.noRollBack, h.results⟩
  | lower => exact ⟨hproxied, fun _ => ⟨rfl, rfl, .inl rfl⟩, nofun, nofun, h.results⟩
  | raise hm =>
    have hcase : S.seen = false ∨ S.proxyState = true ∨ S.proxy ≠ .read := by simpa [attentive, hm, or_assoc] using ha
    refine ⟨hproxied, nofun, fun _ => ⟨rfl, rfl, ?_⟩, nofun, h.results⟩
    by_cases hseen : S.proxy = .read ∧ S.seen = true
    · have hs : S.proxyState = true := by simpa [hseen] using hcase
      exact .inl ⟨hseen.1, hseen.2, hs⟩
    · exact .inr (.inl ⟨rfl, fun hread => eq_false_of_ne_true fun hs => hseen ⟨hread, hs⟩⟩)
  | grant => exact ⟨hproxied, nofun, nofun, nofun, hgranted⟩
  | rollBack hm => exact absurd hm h.noRollBack
  | expireDown hm => simp [patient, (h.waitDown hm).2.1] at hp
  | expireUp hm => simp [patient, (h.waitUp hm).2.1] at hp
  | release _ hm =>
    exact ⟨hproxied, fun hw => by simp [hm] at hw, fun hw => by simp [hm] at hw, h.noRollBack, h.results⟩
  | drop => exact ⟨hproxied, h.waitDown, h.waitUp, h.noRollBack, h.results⟩

lemma proxied_start : Proxied {} := ⟨nofun, fun _ => rfl⟩

end Handshake

open Handshake

/-- **The barrier handshake.** In every run, through any barriers: if no answer about to be taken back is there when
FULLSYNC_STATE is set, the proxy is in BUFFERING from the moment `repl_barrier_begin` returns 0 until FULLSYNC_STATE
is cleared. If the proxy has then seen it cleared or its answer is there or on its way, and no deadline passes
within two rounds and a poll, `repl_barrier_begin` never returns -1, and after two rounds the next poll finds what
it waits for. -/
theorem barrier_handshake (is : List HandshakeInput) :
    (GuardedRun Handshake.step (fun S i => S.settled i = true) {} is →
      (is.foldl Handshake.step {}).held = true → (is.foldl Handshake.step {}).buffering = true) ∧
    (GuardedRun Handshake.step (fun S i => S.attentive i = true ∧ S.patient i = true) {} is →
      (∀ r ∈ (is.foldl Handshake.step {}).results, r = true) ∧
      (2 ≤ (is.foldl Handshake.step {}).rounds →
        ((is.foldl Handshake.step {}).master = .waitDown → (is.foldl Handshake.step {}).proxyState = false) ∧
        ((is.foldl Handshake.step {}).master = .waitUp → (is.foldl Handshake.step {}).proxyState = true))) := by
  constructor
  · intro hrun hheld
    have hstart : Holds {} := ⟨proxied_start, nofun, nofun, nofun⟩
    have h : (is.foldl Handshake.step {}).Holds := GuardedRun.invariant (fun S i hS hi => hS.step hi) hstart hrun
    obtain ⟨-, hread, hseen⟩ := h.held hheld
    have hproxied := h.proxied
    unfold Proxied at hproxied
    simp only [hread] at hproxied
    exact hproxied.1 hseen
  · intro hrun
    have hstart : Waits {} := ⟨proxied_start, nofun, nofun, nofun, nofun⟩
    have h : (is.foldl Handshake.step {}).Waits :=
      GuardedRun.invariant (fun S i hS hi => hS.step hi.1 hi.2) hstart hrun
    exact ⟨h.results, fun hr => ⟨fun hm => (h.waitDown hm).2.2.answer h.proxied hr,
      fun hm => (h.waitUp hm).2.2.answer hr⟩⟩

/-- An input, so many times. -/
def times (n : ℕ) (i : HandshakeInput) : List HandshakeInput := List.replicate n i

/-- A barrier is cancelled, and the proxy is waited for before the next one. -/
def afterCancel : List HandshakeInput :=
  [.begin] ++ times 4 .master ++ times 3 .proxy ++ [.master, .cancel, .begin] ++ times 3 .master ++ times 3 .proxy ++
    times 3 .master ++ times 3 .proxy ++ [.master]

theorem barrier_handshake_after_cancel :
    (afterCancel.foldl Handshake.step {}).results = [true, true] ∧
      (afterCancel.foldl Handshake.step {}).held = true ∧ (afterCancel.foldl Handshake.step {}).buffering = true ∧
      ∀ r ∈ (afterCancel.foldl Handshake.step {}).results, r = true :=
  ⟨by decide, by decide, (barrier_handshake afterCancel).1 (by decide) (by decide),
    ((barrier_handshake afterCancel).2 (by decide)).1⟩

/-- The first barrier times out; the proxy's answer comes after PROXY_STATE is cleared for the second one, and the
proxy reads the cell before FULLSYNC_STATE is set. -/
def lateAnswer : List HandshakeInput :=
  [.begin] ++ times 4 .master ++ times 2 .proxy ++ [.expire, .master, .begin] ++ times 3 .master ++ times 2 .proxy ++
    times 2 .master

/-- The barrier is released, or cancelled, and put up again before the proxy has looked. -/
def missedEdge (down : HandshakeInput) (n : ℕ) : List HandshakeInput :=
  [.begin] ++ times 4 .master ++ times 3 .proxy ++ [.master, down, .begin] ++ times 6 .master ++ times n .proxy ++
    [.master, .expire, .master]

theorem barrier_handshake_fails :
    ((lateAnswer.foldl Handshake.step {}).held = true ∧
      ((lateAnswer ++ times 1 .proxy).foldl Handshake.step {}).held = true ∧
      ((lateAnswer ++ times 1 .proxy).foldl Handshake.step {}).buffering = false) ∧
    ((missedEdge (.release true) 2).foldl Handshake.step {}).results = [true, false] ∧
    ((missedEdge .cancel 2).foldl Handshake.step {}).results = [true, false] ∧
    ((missedEdge .cancel 2).foldl Handshake.step {}).polled = true := by
  decide

end PocketKv.Replication
