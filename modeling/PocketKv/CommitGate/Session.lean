import PocketKv.CommitGate.Publisher

/-!
# No loss and no reordering in a session
-/

namespace PocketKv.CommitGate

open Library Relation Resp List

/-! ### Steps and runs -/

section

variable {env : Env} {S : ℕ → Bool} {s : ℕ} {W : List CommitDesc} {P : Proxy}

lemma proxyStep_ok {i : Env × Input} (hh : Msg.hello ∉ i.2.msgs) (hW : Distinct (W ++ writesOf i.2.descs))
    (h : ProxyOk s W P) (hk : keeps P i = true) (hs : starts S P i = true) :
    ∃ s', (s' = s ∨ S s' = true) ∧ ProxyOk s' (W ++ writesOf i.2.descs) (proxyStep P i) := by
  rcases proxyStep_cases P hh with hp | ⟨b, w, f, hi, hf, -, heq⟩ | ⟨epoch, m, hi, hg⟩
  · have hds : ∀ d ∈ i.2.descs, d.write = true → 0 < d.global := fun d hd hw =>
      hW.pos d (mem_append_right _ (mem_filter.mpr ⟨hd, hw⟩))
    exact (proxyStep_effects hp (h.numbered hW.left) hds hs hk).proxyOk hW h
  · refine ⟨s, .inl rfl, ?_⟩
    rw [heq, show i.2.descs = [] by rw [hi]; rfl, writesOf_nil, append_nil]
    exact h.congr rfl rfl rfl rfl hf
  · refine ⟨s, .inl rfl, ?_⟩
    rw [show i.2.descs = [] by rw [hi]; rfl, writesOf_nil, append_nil]
    rcases hg with ⟨-, heq⟩ | ⟨-, heq⟩ <;> rw [heq]
    · exact h
    · obtain ⟨f, hf, hresume⟩ := pcOnResume_eq i.1 m P.gate
      rw [hresume]
      exact h.congr rfl rfl rfl rfl fun hn => (hf hn).1

end

/-- The messages among the inputs. -/
def msgsOf (is : List (Env × Input)) : List Msg := is.flatMap (·.2.msgs)

lemma descsOf_msgsOf_cons (i : Env × Input) (is : List (Env × Input)) :
    descsOf (msgsOf (i :: is)) = i.2.descs ++ descsOf (msgsOf is) := by
  simp [msgsOf, Input.descs, descsOf]

variable {W : List CommitDesc}

lemma run_ok {S : ℕ → Bool} {s : ℕ} {P : Proxy} {is : List (Env × Input)}
    (hh : Msg.hello ∉ msgsOf is) (hW : Distinct (W ++ writesOf (descsOf (msgsOf is)))) (h : ProxyOk s W P)
    (ha : GuardedRun proxyStep (fun P i => keeps P i = true ∧ starts S P i = true) P is) :
    ∃ s', (s' = s ∨ S s' = true) ∧ ProxyOk s' (W ++ writesOf (descsOf (msgsOf is))) (is.foldl proxyStep P) := by
  induction is generalizing s W P with
  | nil => exact ⟨s, .inl rfl, by simpa [msgsOf] using h⟩
  | cons i is ih =>
    rw [descsOf_msgsOf_cons, writesOf_append, ← append_assoc] at hW ⊢
    simp only [msgsOf, flatMap_cons, mem_append, not_or] at hh
    obtain ⟨s₁, hs₁, h₁⟩ := proxyStep_ok hh.1 hW.left h ha.1.1 ha.1.2
    obtain ⟨s₂, rfl | hs₂, h₂⟩ := ih hh.2 hW h₁ ha.2
    · exact ⟨s₂, hs₁, h₂⟩
    · exact ⟨s₂, .inr hs₂, h₂⟩

lemma distinct_of_numbered {f : ℕ} (hf : f ≠ 0) (hW : W.map (·.global) = List.range' f W.length) : Distinct W := by
  refine ⟨hW ▸ nodup_range', fun d hd => ?_⟩
  have hmem : d.global ∈ W.map (·.global) := mem_map_of_mem hd
  rw [hW, mem_range'_1] at hmem
  omega

/-- The proxy when it starts or has seen HELLO. -/
def Proxy.purged (buffering : Bool) (epoch : ℕ) : Proxy :=
  proxyCommitPurge { gate := { buffering := buffering }, sessionEpoch := epoch }

lemma purged_ok (s : ℕ) (buffering : Bool) (epoch : ℕ) : ProxyOk s [] (Proxy.purged buffering epoch) := by
  refine ⟨⟨fun _ => ⟨rfl, rfl⟩, rfl, fun h => absurd rfl h, ?_, ?_, ?_, le_of_eq rfl, fun _ => rfl⟩, ?_⟩ <;>
    intro x hx <;> exact absurd hx not_mem_nil

/-- The write has been handed over, is ready or awaits its command. -/
inductive Proxy.Holds (P : Proxy) (d : CommitDesc) : Prop where
  | handed (r : Rec) (hr : r ∈ P.gate.handed) (hd : d.Describes r)
  | ready (c : Cmd) (hc : c ∈ P.gate.ready) (hd : d.Describes c.toRec)
  | waits (k : ℕ) (c : Ctx) (x : Desc) (hk : P.ctxs.lookup k = some c) (hx : x ∈ c.descs) (hd : x.desc = d)

lemma ProxyOk.holds {s : ℕ} {P : Proxy} (hW : Distinct W) (h : ProxyOk s W P) (hfault : P.gate.fault = none)
    {d : CommitDesc} (hd : d ∈ W) : P.Holds d := by
  -- Different writes have different numbers.
  have hinj {d' : CommitDesc} (hd' : d' ∈ W) (hg : d'.global = d.global) : d' = d :=
    inj_on_of_nodup_map hW.nodup hd' hd hg
  have hmem : d.global ∈ P.gate.held + waiting [] + total Ctx.waiting P.ctxs := by
    rw [h.gate.exact hfault]
    exact Multiset.mem_coe.mpr (mem_map_of_mem hd)
  simp only [Multiset.mem_add, mem_total, Gate.held, Multiset.mem_coe, mem_append, mem_map] at hmem
  rcases hmem with ((⟨r, hr, hg⟩ | ⟨c, hc, hg⟩) | hmem) | ⟨e, he, hmem⟩
  · obtain ⟨d', hd', hdesc⟩ := h.gate.handed r hr
    exact .handed r hr (hinj hd' (hdesc.1.trans hg) ▸ hdesc)
  · obtain ⟨d', hd', hdesc⟩ := h.gate.ready c hc
    exact .ready c hc (hinj hd' (hdesc.1.trans hg) ▸ hdesc)
  · simp [waiting, writesOf] at hmem
  · simp only [Ctx.waiting, waiting, writesOf, Multiset.mem_coe, mem_map, mem_filter] at hmem
    obtain ⟨_, ⟨⟨x, hx, rfl⟩, hw⟩, hg⟩ := hmem
    exact .waits e.1 e.2 x (AList.mem_lookup_iff.mpr he) hx (hinj (h.descs e he x hx hw) hg)

lemma received_numbered {M : Publisher} {sid : ℕ} {es : List ClientEvent} {ms : List Msg}
    (hms : ms <+: ((replCommitSessionEnd M).sessionRun sid es).2) :
    Msg.hello ∉ ms ∧
      (writesOf (descsOf ms)).map (·.global) = List.range' (M.globalSeq + 1) (writesOf (descsOf ms)).length := by
  obtain ⟨hh, hnum⟩ := sent_numbered sid (M := replCommitSessionEnd M) rfl es
  refine ⟨fun h => hh (hms.subset h), numbered_of_prefix ?_ hnum⟩
  obtain ⟨rest, hrest⟩ := hms
  rw [← hrest]
  exact ⟨writesOf (descsOf rest), by simp⟩

/-- The step drops no write, and does not start the gate with another write than `f`. -/
def admissible (f : ℕ) (P : Proxy) (i : Env × Input) : Bool := keeps P i && starts (· == f) P i

/-- **No loss and no reordering.** Whatever the interleaving of messages, records and polls, if every step is
admissible the writes handed over are numbered without a gap from the first of the session, each with the length and
the hash published, and unless there is a fault every published write that has come in was handed over, is ready or
waits. -/
theorem session_no_loss (M : Publisher) (sid : ℕ) (es : List ClientEvent) (buffering : Bool) (epoch : ℕ)
    (is : List (Env × Input))
    (hms : msgsOf is <+: ((replCommitSessionEnd M).sessionRun sid es).2)
    (ha : GuardedRun proxyStep (fun P i => admissible (M.globalSeq + 1) P i = true)
      (Proxy.purged buffering epoch) is) :
    let P := is.foldl proxyStep (Proxy.purged buffering epoch)
    let published := writesOf (descsOf (msgsOf is))
    P.gate.handed.map (·.global) = List.range' (M.globalSeq + 1) P.gate.handed.length ∧
      (∀ r ∈ P.gate.handed, ∃ d ∈ published, d.Describes r) ∧
      (P.gate.fault = none → ∀ d ∈ published, P.Holds d) := by
  obtain ⟨hh, hnum⟩ := received_numbered hms
  have hW := distinct_of_numbered (Nat.succ_ne_zero _) hnum
  simp only [admissible, Bool.and_eq_true] at ha
  obtain ⟨s, hs, hok⟩ := run_ok (W := []) hh hW (purged_ok (M.globalSeq + 1) buffering epoch) ha
  have hs' : s = M.globalSeq + 1 := by simpa using hs
  subst hs'
  exact ⟨hok.gate.order, hok.gate.handed, fun hfault d hd => hok.holds hW hfault hd⟩

/-- Two clients write one after the other. -/
def twoWriters : List ClientEvent :=
  [.accept 1, .accept 2, .command 1 (str "SET a 1\n") true, .flush, .command 2 (str "SET b 2\n") true, .flush]

/-- A client writes and is gone. -/
def writeAndClose : List ClientEvent :=
  [.accept 1, .command 1 (str "SET a 1\n") true, .flush, .close 1]

/-- What is sent in a session. -/
def sent (es : List ClientEvent) : List Msg := ((replCommitSessionEnd {}).sessionRun 7 es).2

/-- Inputs at one moment, with a replica that takes all. -/
def calmly (is : List Input) : List (Env × Input) := is.map fun i => (⟨0, fun _ => true⟩, i)

/-- The records of two writers come, the later one first, and then the descriptors. -/
def recordsFirst : List (Env × Input) :=
  calmly (((sent twoWriters).take 2).map .msg ++
    [.record 2 0 (str "SET b 2\n"), .record 1 0 (str "SET a 1\n")] ++ ((sent twoWriters).drop 2).map .msg)

theorem session_no_loss_records_first :
    let P := recordsFirst.foldl proxyStep (Proxy.purged false 0)
    let published := writesOf (descsOf (msgsOf recordsFirst))
    published.length = 2 ∧
      P.gate.handed.map (·.global) = List.range' 1 P.gate.handed.length ∧
      (∀ r ∈ P.gate.handed, ∃ d ∈ published, d.Describes r) ∧
      (P.gate.fault = none → ∀ d ∈ published, P.Holds d) :=
  ⟨by decide, session_no_loss {} 7 twoWriters false 0 recordsFirst (by decide) (by decide)⟩

/-- Only the record of the second writer comes before the descriptors. -/
def secondFirst : List (Env × Input) :=
  calmly (((sent twoWriters).take 2).map .msg ++
    [.record 2 0 (str "SET b 2\n")] ++ ((sent twoWriters).drop 2).map .msg)

/-- The descriptor comes, and the connection is forgotten before its record comes. -/
def forgotten : List (Env × Input) := calmly ((sent writeAndClose).map .msg)

/-- The gate starts with the second write if its record comes first; a write is lost, without a fault, if its
connection is forgotten before its record comes. -/
theorem session_starts_late_and_loses :
    (msgsOf secondFirst <+: sent twoWriters ∧
      (secondFirst.foldl proxyStep (Proxy.purged false 0)).gate.handed.map (·.global) = [2] ∧
      (secondFirst.foldl proxyStep (Proxy.purged false 0)).gate.fault = none) ∧
    (msgsOf forgotten <+: sent writeAndClose ∧
      (forgotten.foldl proxyStep (Proxy.purged false 0)).gate.fault = none ∧
      ∃ d ∈ writesOf (descsOf (msgsOf forgotten)),
        ¬ (forgotten.foldl proxyStep (Proxy.purged false 0)).Holds d) := by
  refine ⟨by decide, by decide, by decide, ⟨1, 1, 1, kvsCmdCrc64 (str "SET a 1\n"), 8, true⟩, by decide, ?_⟩
  have hhanded : (forgotten.foldl proxyStep (Proxy.purged false 0)).gate.handed = [] := by decide
  have hready : (forgotten.foldl proxyStep (Proxy.purged false 0)).gate.ready = [] := by decide
  have hctxs : (forgotten.foldl proxyStep (Proxy.purged false 0)).ctxs.entries = [] := by decide
  rintro (⟨r, hr, -⟩ | ⟨c, hc, -⟩ | ⟨k, c, x, hk, -, -⟩)
  · simp [hhanded] at hr
  · simp [hready] at hc
  · have hmem := AList.mem_lookup_iff.mp hk
    simp [hctxs] at hmem

end PocketKv.CommitGate
