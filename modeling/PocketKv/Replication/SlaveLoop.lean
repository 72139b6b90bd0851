import PocketKv.Library.Interleaving
import PocketKv.Resp.Chunking

/-!
# The replica's receive loop
-/

namespace PocketKv.Replication

open Library Resp

variable {σ : Type*}

/-- `BUFFER_CAP * 4 + 4096`, the size of the loop's buffer. -/
def slaveBufCap : ℕ := 65536 * 4 + 4096

/-- The sockets of the loop. -/
inductive Sock where
  | proxy
  | tcp
  deriving DecidableEq

/-- The state of the loop. -/
structure SlaveLoop (σ : Type*) where
  server : σ
  buf : Bytes
  parsed : List Event
  proxyUp : Bool
  up : Bool

/-- `parse_resp_stream` on the buffer. -/
def SlaveLoop.parse (K : Hooks σ) (L : SlaveLoop σ) : SlaveLoop σ :=
  let r := parseRespStream K slaveLink L.server L.buf
  { L with server := r.1, buf := r.2.2, parsed := L.parsed ++ r.2.1 }

/-- A `recv` on a socket that has the bytes `c` for it. -/
def SlaveLoop.recv (K : Hooks σ) (sock : Sock) (c : Bytes) (L : SlaveLoop σ) : SlaveLoop σ :=
  if L.buf.length < slaveBufCap then { L with buf := L.buf ++ c }.parse K
  else
    match sock with
    | .proxy => { L with proxyUp := false }
    | .tcp => { L with up := false }

/-- What the two `recv` calls of a turn get; nothing if there is nothing to read. -/
structure Turn where
  proxy : Option Bytes
  tcp : Option Bytes

/-- A turn of the loop. -/
def turnStep (K : Hooks σ) (L : SlaveLoop σ) (t : Turn) : SlaveLoop σ :=
  let L₁ := if L.proxyUp then t.proxy.elim L fun c => L.recv K .proxy c else L
  let L₂ := t.tcp.elim L₁ fun c => L₁.recv K .tcp c
  if L₂.up then
    let L₃ := if (t.proxy.isSome || t.tcp.isSome) && L₂.buf ≠ [] then L₂.parse K else L₂
    if L₃.buf ≠ [] then L₃.parse K else L₃
  else L₂

/-- The loop, while the link is up. -/
def slaveLoop (K : Hooks σ) : SlaveLoop σ → List Turn → SlaveLoop σ
  | L, [] => L
  | L, t :: ts => if L.up then slaveLoop K (turnStep K L t) ts else L

/-- The loop at its start. -/
def SlaveLoop.init (s : σ) : SlaveLoop σ where
  server := s
  buf := []
  parsed := []
  proxyUp := true
  up := true

/-! ### What is on the links -/

/-- The `recv` calls of a turn, in order. -/
def Turn.recvs (t : Turn) : List (Sock × Bytes) :=
  (t.proxy.map fun c => (Sock.proxy, c)).toList ++ (t.tcp.map fun c => (Sock.tcp, c)).toList

/-- What was read from a socket. -/
def readFrom (sock : Sock) (rs : List (Sock × Bytes)) : Bytes :=
  (rs.filter (·.1 = sock)).flatMap (·.2)

/-- What the parser reads in the bytes. -/
def parsedIn (xs : Bytes) : List Event := ((respScanner slaveLink).run xs).1

/-- What it leaves. -/
def unfinished (xs : Bytes) : Bytes := ((respScanner slaveLink).run xs).2

/-- The server after the `recv` of `c`, with `own` read from the socket before. -/
def handled (K : Hooks σ) (s : σ) (own c : Bytes) : σ := (parsedIn (unfinished own ++ c)).foldl K.handle s

/-- The `recv` of `c`, with `own` read from the socket and `other` from the other one, meets none of the loop's
traps. -/
structure CleanRecv (K : Hooks σ) (s : σ) (own other c : Bytes) : Prop where
  whole : unfinished other = []
  room : (unfinished own).length < slaveBufCap
  /-- The new bytes do not end inside a `+` line. -/
  line : ¬ InsidePlusLine slaveLink (own ++ c)
  /-- No snapshot is being loaded. -/
  outside : OutsideLoading K slaveLink s (parsedIn (unfinished own ++ c))

/-- All `recv` calls are clean, after `m` has been read from the master and `p` from the proxy. -/
def Clean (K : Hooks σ) : σ → Bytes → Bytes → List (Sock × Bytes) → Prop
  | _, _, _, [] => True
  | s, m, p, (.tcp, c) :: rs => CleanRecv K s m p c ∧ Clean K (handled K s m c) (m ++ c) p rs
  | s, m, p, (.proxy, c) :: rs => CleanRecv K s p m c ∧ Clean K (handled K s p c) m (p ++ c) rs

/-! ### The invariant -/

/-- The state of the loop after `m` has been read from the master and `p` from the proxy. -/
structure Inv (K : Hooks σ) (m p : Bytes) (L : SlaveLoop σ) : Prop where
  up : L.up = true
  proxyUp : L.proxyUp = true
  notLoading : K.loading L.server = false
  parsed : Interleaving (parsedIn m) (parsedIn p) L.parsed
  buf : L.buf = unfinished m ++ unfinished p
  one : unfinished m = [] ∨ unfinished p = []
  /-- It is not a `+` line. -/
  line : ¬ InsidePlusLine slaveLink m ∧ ¬ InsidePlusLine slaveLink p

section Steps

variable {K : Hooks σ} {L : SlaveLoop σ} {m p c own : Bytes}

lemma parsedIn_append (xs ys : Bytes) : parsedIn (xs ++ ys) = parsedIn xs ++ parsedIn (unfinished xs ++ ys) := by
  simp [parsedIn, unfinished, Scanner.run_append (S := respScanner slaveLink) (respStep_stable slaveLink) xs ys]

lemma unfinished_append (xs ys : Bytes) : unfinished (xs ++ ys) = unfinished (unfinished xs ++ ys) := by
  simp [unfinished, Scanner.run_append (S := respScanner slaveLink) (respStep_stable slaveLink) xs ys]

lemma unfinished_unfinished (xs : Bytes) : unfinished (unfinished xs) = unfinished xs := by
  have hrun := Scanner.run_rest (S := respScanner slaveLink) (respStep_stable slaveLink) xs
  conv_lhs => rw [unfinished, unfinished, hrun]
  rfl

lemma parse_eq (ho : OutsideLoading K slaveLink L.server (parsedIn L.buf))
    (hline : ¬ InsidePlusLine slaveLink L.buf) :
    L.parse K = { L with
      server := (parsedIn L.buf).foldl K.handle L.server
      buf := unfinished L.buf
      parsed := L.parsed ++ parsedIn L.buf } := by
  have hkeep : respKeep (unfinished L.buf) = unfinished L.buf := respKeep_eq_self hline
  simp only [SlaveLoop.parse, parseRespStream_outside ho]
  simp only [Scanner.call, parsedIn, unfinished, respScanner] at hkeep ⊢
  simp [hkeep]

lemma parse_again (hl : K.loading L.server = false) (hbuf : L.buf = unfinished own)
    (hline : ¬ InsidePlusLine slaveLink own) : L.parse K = L := by
  have hrun := Scanner.run_rest (S := respScanner slaveLink) (respStep_stable slaveLink) own
  have hnone : parsedIn (unfinished own) = [] := congrArg Prod.fst hrun
  have hsame := unfinished_unfinished own
  have hl' : ¬ InsidePlusLine slaveLink (unfinished own) := by
    change ¬ ((unfinished (unfinished own)).head? = some 43 ∧ 2 ≤ (unfinished (unfinished own)).length)
    rwa [hsame]
  rw [parse_eq (outsideLoading_of_no_start hl (by simp [hbuf, hnone])) (by rwa [hbuf])]
  cases L
  simp_all

lemma recv_eq (sock : Sock) {other : Bytes} (hbuf : L.buf = unfinished own)
    (hc : CleanRecv K L.server own other c) :
    K.loading (handled K L.server own c) = false ∧ L.recv K sock c = { L with
      server := handled K L.server own c
      buf := unfinished (own ++ c)
      parsed := L.parsed ++ parsedIn (unfinished own ++ c) } := by
  have hline : ¬ InsidePlusLine slaveLink (unfinished own ++ c) := by
    have := hc.line
    change ¬ ((unfinished (unfinished own ++ c)).head? = some 43 ∧ 2 ≤ (unfinished (unfinished own ++ c)).length)
    rwa [← unfinished_append]
  have hparse := parse_eq (L := { L with buf := unfinished own ++ c }) hc.outside hline
  refine ⟨hc.outside rfl _ (List.prefix_refl _), ?_⟩
  simp [SlaveLoop.recv, hbuf, hc.room, hparse, ← unfinished_append, handled]

lemma Inv.recv_tcp (h : Inv K m p L) (hc : CleanRecv K L.server m p c) :
    Inv K (m ++ c) p (L.recv K .tcp c) ∧ (L.recv K .tcp c).server = handled K L.server m c := by
  obtain ⟨hl, hr⟩ := recv_eq .tcp (by simp [h.buf, hc.whole]) hc
  rw [hr]
  refine ⟨⟨h.up, h.proxyUp, hl, ?_, by simp [hc.whole], .inr hc.whole, hc.line, h.line.2⟩, rfl⟩
  rw [parsedIn_append]
  exact h.parsed.append_left _

lemma Inv.recv_proxy (h : Inv K m p L) (hc : CleanRecv K L.server p m c) :
    Inv K m (p ++ c) (L.recv K .proxy c) ∧ (L.recv K .proxy c).server = handled K L.server p c := by
  obtain ⟨hl, hr⟩ := recv_eq .proxy (by simp [h.buf, hc.whole]) hc
  rw [hr]
  refine ⟨⟨h.up, h.proxyUp, hl, ?_, by simp [hc.whole], .inl hc.whole, h.line.1, hc.line⟩, rfl⟩
  rw [parsedIn_append]
  exact h.parsed.append_right _

lemma Inv.parse_eq_self (h : Inv K m p L) : L.parse K = L := by
  rcases h.one with hm | hp
  · exact parse_again h.notLoading (by simp [h.buf, hm]) h.line.2
  · exact parse_again h.notLoading (by simp [h.buf, hp]) h.line.1

lemma Inv.turn {t : Turn} {rs : List (Sock × Bytes)} (h : Inv K m p L) (hc : Clean K L.server m p (t.recvs ++ rs)) :
    Inv K (m ++ readFrom .tcp t.recvs) (p ++ readFrom .proxy t.recvs) (turnStep K L t) ∧
      Clean K (turnStep K L t).server (m ++ readFrom .tcp t.recvs) (p ++ readFrom .proxy t.recvs) rs := by
  -- The two calls of the parser at the end of a turn do nothing.
  have hend {m' p' : Bytes} {L' : SlaveLoop σ} (h' : Inv K m' p' L') (b : Bool) :
      (if L'.up then
        let L₃ := if b && L'.buf ≠ [] then L'.parse K else L'
        if L₃.buf ≠ [] then L₃.parse K else L₃
      else L') = L' := by
    simp [h'.up, h'.parse_eq_self]
  obtain ⟨pr, tc⟩ := t
  rcases pr with _ | a <;> rcases tc with _ | b
  · simp only [turnStep, Turn.recvs, Option.elim, h.proxyUp, if_true, hend h]
    simpa [readFrom, Turn.recvs] using ⟨h, hc⟩
  · obtain ⟨hb, hrest⟩ := hc
    obtain ⟨hinv, hserver⟩ := h.recv_tcp hb
    simp only [turnStep, Option.elim, h.proxyUp, if_true, hend hinv]
    simpa [readFrom, Turn.recvs] using ⟨hinv, hserver ▸ hrest⟩
  · obtain ⟨ha, hrest⟩ := hc
    obtain ⟨hinv, hserver⟩ := h.recv_proxy ha
    simp only [turnStep, Option.elim, h.proxyUp, if_true, hend hinv]
    simpa [readFrom, Turn.recvs] using ⟨hinv, hserver ▸ hrest⟩
  · obtain ⟨ha, hb, hrest⟩ := hc
    obtain ⟨hinv, hserver⟩ := h.recv_proxy ha
    rw [← hserver] at hb hrest
    obtain ⟨hinv, hserver⟩ := hinv.recv_tcp hb
    simp only [turnStep, Option.elim, h.proxyUp, if_true, hend hinv]
    simpa [readFrom, Turn.recvs] using ⟨hinv, hserver ▸ hrest⟩

end Steps

/-- **What a replica parses from its two links is an interleaving of what is on them**, in every run all of whose
`recv` calls are clean; the buffer holds what is unfinished. -/
theorem slaveLoop_interleaves (K : Hooks σ) (s : σ) (hs : K.loading s = false) (ts : List Turn)
    (hclean : Clean K s [] [] (ts.flatMap Turn.recvs)) :
    let L := slaveLoop K (SlaveLoop.init s) ts
    let m := readFrom .tcp (ts.flatMap Turn.recvs)
    let p := readFrom .proxy (ts.flatMap Turn.recvs)
    L.up = true ∧ L.proxyUp = true ∧ Interleaving (parsedIn m) (parsedIn p) L.parsed ∧
      L.buf = unfinished m ++ unfinished p := by
  -- Induction on the turns, from any state of the loop.
  have key : ∀ (ts : List Turn) (m p : Bytes) (L : SlaveLoop σ), Inv K m p L →
      Clean K L.server m p (ts.flatMap Turn.recvs) →
      Inv K (m ++ readFrom .tcp (ts.flatMap Turn.recvs)) (p ++ readFrom .proxy (ts.flatMap Turn.recvs))
        (slaveLoop K L ts) := by
    intro ts
    induction ts with
    | nil =>
      intro m p L h _
      simpa [slaveLoop, readFrom] using h
    | cons t ts ih =>
      intro m p L h hc
      rw [List.flatMap_cons] at hc
      obtain ⟨hinv, hrest⟩ := h.turn hc
      have := ih _ _ _ hinv hrest
      simpa [slaveLoop, h.up, readFrom] using this
  have hinit : Inv K [] [] (SlaveLoop.init s) := ⟨rfl, rfl, hs, .nil, rfl, .inl rfl, by decide, by decide⟩
  have h := key ts [] [] _ hinit hclean
  exact ⟨h.up, h.proxyUp, h.parsed, h.buf⟩

/-- Turns in which commands are cut. -/
def cleanTurns : List Turn :=
  [⟨some (str "SET a"), none⟩, ⟨some (str " 1\r\n"), some (str "*1\r\n$4\r\nPI")⟩,
    ⟨none, some (str "NG\r\n")⟩, ⟨none, some (str "+CONTINUE x 7\r\n")⟩]

theorem slaveLoop_interleaves_clean :
    Interleaving (parsedIn (str "*1\r\n$4\r\nPING\r\n+CONTINUE x 7\r\n")) (parsedIn (str "SET a 1\r\n"))
      (slaveLoop idleHooks (SlaveLoop.init ()) cleanTurns).parsed := by
  have hclean : Clean idleHooks () [] [] (cleanTurns.flatMap Turn.recvs) := by
    simp only [cleanTurns, Turn.recvs, List.flatMap_cons, List.flatMap_nil, Option.map_some,
      Option.map_none, Option.toList_some, Option.toList_none, List.nil_append, List.append_nil,
      List.cons_append, Clean, and_true]
    have hout (es : List Event) : OutsideLoading idleHooks slaveLink () es := fun _ _ _ => rfl
    refine ⟨⟨?_, ?_, ?_, hout _⟩, ⟨?_, ?_, ?_, hout _⟩, ⟨?_, ?_, ?_, hout _⟩, ⟨?_, ?_, ?_, hout _⟩, ?_, ?_, ?_, hout _⟩
    all_goals decide
  exact (slaveLoop_interleaves idleHooks () rfl cleanTurns hclean).2.2.1

/-- **A command that arrives in two parts swallows what comes from the other link in between.** -/
theorem slaveLoop_merges :
    ¬ Interleaving (parsedIn (str "*1\r\n$4\r\nPING\r\n")) (parsedIn (str "SET a 1\r\n"))
      (slaveLoop idleHooks (SlaveLoop.init ())
        [⟨some (str "SET a"), some (str "*1\r\n$4\r\nPING\r\n")⟩, ⟨some (str " 1\r\n"), none⟩]).parsed := by
  intro h
  have hlen := h.length
  revert hlen
  decide

end PocketKv.Replication
