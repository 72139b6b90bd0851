import Mathlib.Data.List.GetD
import PocketKv.Resp.Build
import PocketKv.Resp.Framer

/-!
# Where the arguments of a command are
-/

namespace PocketKv.Resp

open Library List

/-! ### The memory of a command -/

/-- `PARSE_SCRATCH`, the size of `scratch`. -/
def parseScratch : ℕ := 4096

/-- Where an argument is. -/
inductive Place where
  /-- In `scratch`. -/
  | scratch (off : ℕ)
  /-- In allocated memory. -/
  | heap (block : ℕ)
  /-- In the receive buffer. -/
  | buffer (off : ℕ)
  deriving DecidableEq

/-- `argv[i]` and `argl[i]`. -/
structure Arg where
  place : Place
  len : ℕ
  deriving DecidableEq

/-- The memory for the arguments of one command. -/
structure ArgMemory where
  /-- `scratch`. -/
  scratch : ℕ → UInt8
  /-- `scratch_off`. -/
  off : ℕ := 0
  /-- What was allocated. -/
  heap : List Bytes := []

namespace ArgMemory

/-- A copy of an argument with a NUL, in `scratch` if it fits and allocated otherwise. -/
def copy (m : ArgMemory) (arg : Bytes) : Place × ArgMemory :=
  if m.off + arg.length + 1 ≤ parseScratch then
    (.scratch m.off,
      { m with
        scratch := fun i => if m.off ≤ i ∧ i < m.off + (arg.length + 1) then (arg ++ [0]).getD (i - m.off) 0
          else m.scratch i
        off := m.off + arg.length + 1 })
  else (.heap m.heap.length, { m with heap := m.heap ++ [arg ++ [0]] })

/-- What a handler finds behind the pointer, with the command at the front of the bytes `xs`. -/
def read (m : ArgMemory) (xs : Bytes) (a : Arg) : Bytes :=
  match a.place with
  | .scratch off => (List.range a.len).map fun i => m.scratch (off + i)
  | .heap block => (m.heap.getD block []).take a.len
  | .buffer off => (xs.drop off).take a.len

/-- What was allocated is freed, and the scratch area is used from its beginning again. -/
def release (m : ArgMemory) : ArgMemory := { m with off := 0, heap := [] }

end ArgMemory

/-- `ECHO` and `PING`, in any case: their other arguments are not copied. -/
def isHot (name : Bytes) : Bool :=
  name.map (· ||| 32) == str "echo" || name.map (· ||| 32) == str "ping"

/-! ### The parser with pointers -/

/-- Puts an argument at its place, which is `off` in the buffer. -/
def placeArg (inPlace : Bool) (off : ℕ) (arg : Bytes) (m : ArgMemory) : Arg × ArgMemory :=
  if inPlace then (⟨.buffer off, arg.length⟩, m) else (⟨(m.copy arg).1, arg.length⟩, (m.copy arg).2)

/-- The loop over `n` bulk strings; `first` is `i == 0`, and `noScratch` is `no_scratch`. -/
def placeBulks (conn : Bool) (len : ℕ) : ℕ → Bool → Bool → Bytes → ArgMemory → Read (List Arg) × ArgMemory
  | 0, _, _, xs, m => (.ok [] xs, m)
  | n + 1, first, noScratch, xs, m =>
    match bulkLen bulkLenOf xs with
    | .incomplete => (.incomplete, m)
    | .malformed badLen rest => (.malformed badLen rest, m)
    | .ok blen r =>
      let noScratch := noScratch || first && conn && isHot (r.take blen)
      let x := placeArg (!first && noScratch) (len - r.length) (r.take blen) m
      match bulkData blen r with
      | .incomplete => (.incomplete, m)
      | .malformed badLen rest => (.malformed badLen rest, x.2)
      | .ok _ r' =>
        let y := placeBulks conn len n false noScratch r' x.2
        (y.1.bind fun args rest => .ok (x.1 :: args) rest, y.2)

/-- One item, with its arguments behind pointers. -/
def placedStep (cx : Caller) (m : ArgMemory) (xs : Bytes) : Verdict Event × ArgMemory :=
  if xs.head? = some 42 then
    match splitCrlf xs.tail with
    | none => (.more, m)
    | some (h, r) =>
      if 32 ≤ h.length then (.take (h.length + 3) [], m)
      else
        match argcOf h with
        | none => (.take (h.length + 3) (replyIf cx "invalid argc"), m)
        | some argc =>
          match placeBulks cx.conn xs.length argc true false r m with
          | (.incomplete, m) => (.more, m.release)
          | (.malformed badLen rest, m) =>
            (.take (xs.length - rest.length) (if badLen then replyIf cx "invalid bulk length" else []), m.release)
          | (.ok args rest, m) =>
            (.take (xs.length - rest.length) [.command (args.map (m.read xs)) (xs.take (xs.length - rest.length))],
              m.release)
  else (respStep cx xs, m)

variable {σ : Type*} {xs ys : Bytes}

/-- The parser's loop, with the memory of the arguments. -/
def placedLoop (K : Hooks σ) (cx : Caller) : ℕ → ArgMemory → σ → Bytes → σ × Trace × Bytes
  | 0, _, s, xs => (s, [], xs)
  | _ + 1, _, s, [] => (s, [], [])
  | fuel + 1, m, s, x :: xs =>
    if cx.fromReplication && K.loading s && !fullsyncControlLine (x :: xs) then
      match K.intercept s (x :: xs) with
      | (s', none) => (s', [], [])
      | (s', some n) =>
        if n < (x :: xs).length && !K.loading s' then placedLoop K cx fuel m s' ((x :: xs).drop n)
        else (s', [], (x :: xs).drop n)
    else
      match placedStep cx m (x :: xs) with
      | (.more, _) => (s, [(x :: xs, [])], respKeep (x :: xs))
      | (.take n es, m) =>
        let r := placedLoop K cx fuel m (es.foldl K.handle s) ((x :: xs).drop n)
        (r.1, (x :: xs, es) :: r.2.1, r.2.2)

/-- `parse_resp_stream`, with any bytes in the scratch area. -/
def parsePlaced (K : Hooks σ) (cx : Caller) (scratch : ℕ → UInt8) (s : σ) (buf : Bytes) : σ × List Event × Bytes :=
  let r := placedLoop K cx (parseFuel buf) { scratch := scratch } s buf
  (r.1, r.2.1.events, r.2.2)

/-! ### What is behind the pointers -/

namespace ArgMemory

/-- Nothing that was there is lost. -/
structure Extends (m m' : ArgMemory) : Prop where
  off : m.off ≤ m'.off
  scratch : ∀ i < m.off, m'.scratch i = m.scratch i
  heap : m.heap <+: m'.heap

/-- The argument is in memory that is in use. -/
def Within (m : ArgMemory) (a : Arg) : Prop :=
  match a.place with
  | .scratch off => off + a.len ≤ m.off
  | .heap block => block < m.heap.length
  | .buffer _ => True

variable {m m' m'' : ArgMemory}

lemma Extends.refl (m : ArgMemory) : m.Extends m := ⟨le_rfl, fun _ _ => rfl, prefix_rfl⟩

lemma Extends.trans (h : m.Extends m') (h' : m'.Extends m'') : m.Extends m'' :=
  ⟨h.off.trans h'.off, fun i hi => (h'.scratch i (hi.trans_le h.off)).trans (h.scratch i hi), h.heap.trans h'.heap⟩

lemma Extends.read (h : m.Extends m') {a : Arg} (ha : m.Within a) (xs : Bytes) : m'.read xs a = m.read xs a := by
  obtain ⟨place, len⟩ := a
  cases place with
  | scratch off =>
    refine map_congr_left fun i hi => h.scratch _ ?_
    have hlen : off + len ≤ m.off := ha
    have hi : i < len := mem_range.mp hi
    omega
  | heap block =>
    have hblock : block < m.heap.length := ha
    obtain ⟨more, hmore⟩ := h.heap
    simp only [ArgMemory.read, ← hmore]
    rw [getD_append _ _ _ _ hblock]
  | buffer off => rfl

lemma copy_spec (m : ArgMemory) (arg xs : Bytes) :
    m.Extends (m.copy arg).2 ∧ (m.copy arg).2.Within ⟨(m.copy arg).1, arg.length⟩ ∧
      (m.copy arg).2.read xs ⟨(m.copy arg).1, arg.length⟩ = arg := by
  unfold copy
  split
  · refine ⟨⟨by simp only; omega, fun i hi => if_neg (by omega), prefix_rfl⟩, by simp only [Within]; omega, ?_⟩
    refine ext_getElem (by simp [ArgMemory.read]) fun i hi hi' => ?_
    simp only [ArgMemory.read, getElem_map, getElem_range]
    rw [if_pos (by omega), Nat.add_sub_cancel_left, getD_append _ _ _ _ hi', getD_eq_getElem _ _ hi']
  · refine ⟨⟨le_rfl, fun _ _ => rfl, prefix_append _ _⟩, by simp [Within], ?_⟩
    simp [ArgMemory.read]

end ArgMemory

lemma placeArg_spec {xs r : Bytes} (hr : r <:+ xs) (inPlace : Bool) {blen : ℕ} (hblen : blen ≤ r.length)
    (m : ArgMemory) :
    let x := placeArg inPlace (xs.length - r.length) (r.take blen) m
    m.Extends x.2 ∧ x.2.Within x.1 ∧ x.2.read xs x.1 = r.take blen := by
  cases inPlace with
  | false => exact m.copy_spec (r.take blen) xs
  | true =>
    refine ⟨.refl m, trivial, ?_⟩
    show (xs.drop (xs.length - r.length)).take (r.take blen).length = r.take blen
    rw [← suffix_iff_eq_drop.mp hr, length_take, Nat.min_eq_left hblen]

/-- What is behind the pointers. -/
def ArgMemory.behind (m : ArgMemory) (xs : Bytes) (p : Read (List Arg)) : Read (List Bytes) :=
  p.bind fun args rest => .ok (args.map (m.read xs)) rest

lemma placeBulks_spec (conn : Bool) (hys : ys <:+ xs) (n : ℕ) (first noScratch : Bool)
    (m : ArgMemory) :
    let y := placeBulks conn xs.length n first noScratch ys m
    m.Extends y.2 ∧ y.2.behind xs y.1 = readBulks bulkLenOf n ys := by
  induction n generalizing ys first noScratch m with
  | zero => exact ⟨.refl m, rfl⟩
  | succ n ih =>
    simp only [placeBulks, readBulks, readBulk]
    cases hlen : bulkLen bulkLenOf ys with
    | incomplete | malformed badLen rest => exact ⟨.refl m, rfl⟩
    | ok blen r =>
      have hr : r <:+ xs := ((bulkLen_steady _).stop (congrArg Read.rest? hlen)).1.trans hys
      simp only [Read.bind]
      cases hdata : bulkData blen r with
      | incomplete => exact ⟨.refl m, rfl⟩
      | malformed badLen rest =>
        have hlong := bulkData_long (congrArg Read.rest? hdata)
        exact ⟨(placeArg_spec hr _ (by omega) m).1, rfl⟩
      | ok arg r' =>
        have hlong := bulkData_long (congrArg Read.rest? hdata)
        obtain rfl := (bulkData_ok hdata).1
        generalize (noScratch || first && conn && isHot (r.take blen)) = flag
        obtain ⟨hextends, hwithin, hread⟩ := placeArg_spec hr (!first && flag) (show blen ≤ r.length by omega) m
        generalize placeArg (!first && flag) (xs.length - r.length) (r.take blen) m = x at hextends hwithin hread
        have hr' := ((bulkData_steady _).stop (congrArg Read.rest? hdata)).1.trans hr
        obtain ⟨hmore, hbulks⟩ := ih hr' false flag x.2
        refine ⟨hextends.trans hmore, ?_⟩
        dsimp only
        rw [← hbulks, ← hread, ← hmore.read hwithin xs]
        cases (placeBulks conn xs.length n false flag r' x.2).1 <;> rfl

lemma placedStep_eq (cx : Caller) (m : ArgMemory) (xs : Bytes) : (placedStep cx m xs).1 = respStep cx xs := by
  unfold placedStep
  split
  swap
  · rfl
  rename_i hstar
  obtain ⟨t, rfl⟩ : ∃ t, xs = 42 :: t := by
    cases xs with
    | nil => cases hstar
    | cons b t => exact ⟨t, by simp_all⟩
  rw [respStep, itemStep, if_neg (by decide), if_neg (by decide), arrayStep, tail_cons]
  cases hsplit : splitCrlf t with
  | none => rfl
  | some x =>
    obtain ⟨h, r⟩ := x
    dsimp only
    split
    · rfl
    cases argcOf h with
    | none => simp [Verdict.emit, respEvents]
    | some argc =>
      have hr : r <:+ 42 :: t := by
        rw [splitCrlf_eq hsplit]
        exact ⟨42 :: (h ++ [cr, lf]), by simp⟩
      have hbulks := (placeBulks_spec cx.conn hr argc true false m).2
      dsimp only at hbulks ⊢
      rw [← hbulks]
      generalize placeBulks cx.conn (42 :: t).length argc true false r m = y
      obtain ⟨p, m'⟩ := y
      cases p with
      | incomplete => rfl
      | malformed badLen rest => simp [ArgMemory.behind, Read.bind, Read.verdict, Verdict.emit, respEvents]
      | ok args rest => simp [ArgMemory.behind, Read.bind, Read.verdict, Verdict.emit, respEvents]

lemma placedLoop_eq (K : Hooks σ) (cx : Caller) (fuel : ℕ) (m : ArgMemory) (s : σ) (xs : Bytes) :
    placedLoop K cx fuel m s xs = parseLoop K cx fuel s xs := by
  induction fuel generalizing m s xs with
  | zero => rfl
  | succ fuel ih =>
    cases xs with
    | nil => rfl
    | cons x xs =>
      simp only [placedLoop, parseLoop]
      split
      · cases K.intercept s (x :: xs) with
        | mk s' taken =>
          cases taken with
          | none => rfl
          | some n => simp only [ih]
      · rw [← placedStep_eq cx m (x :: xs)]
        cases placedStep cx m (x :: xs) with
        | mk verdict m' =>
          cases verdict with
          | more => rfl
          | take n es => simp only [ih]

/-! ### Pipelines -/

/-- The command, with its encoding as raw bytes. -/
def dispatched (argv : List Bytes) : Event := .command argv (respBuildCmd argv)

/-- **One call on the encodings of commands dispatches these commands**, in order, with the same arguments and raw
bytes, and leaves nothing in the buffer. -/
theorem pipeline_round_trip (K : Hooks σ) (cx : Caller) (scratch : ℕ → UInt8) (s : σ) (cmds : List (List Bytes))
    (hcmds : ∀ argv ∈ cmds, 1 ≤ argv.length ∧ argv.length ≤ 32)
    (hfits : (cmds.map respBuildCmd).flatten.length < 2 ^ 63)
    (hidle : cx.fromReplication = true → K.loading s = false) :
    parsePlaced K cx scratch s (cmds.map respBuildCmd).flatten =
      ((cmds.map dispatched).foldl K.handle s, cmds.map dispatched, []) := by
  have hlength {argv : List Bytes} (hargv : argv ∈ cmds) {a : Bytes} (ha : a ∈ argv) : a.length < 2 ^ 63 := by
    have hcmd : (respBuildCmd argv).length ≤ (cmds.map respBuildCmd).flatten.length :=
      (sublist_flatten_of_mem (mem_map_of_mem hargv)).length_le
    have harg := length_le_respBuildCmd ha
    omega
  have hitems : ∀ x ∈ cmds.map fun argv => (respBuildCmd argv, [dispatched argv]),
      (respScanner cx).step x.1 = .take x.1.length x.2 := by
    intro x hx
    obtain ⟨argv, hargv, rfl⟩ := mem_map.mp hx
    obtain ⟨hpos, hle⟩ := hcmds argv hargv
    exact respStep_respBuildCmd cx (ne_nil_of_length_pos hpos) hle fun a ha => hlength hargv ha
  have hrun : (respScanner cx).run (cmds.map respBuildCmd).flatten = (cmds.map dispatched, []) := by
    have hflatten := Scanner.run_flatten (respStep_stable cx) hitems
    rw [map_map, flatMap_map, ← map_eq_flatMap] at hflatten
    exact hflatten
  have hevents : ∀ e ∈ cmds.map dispatched, e.startsLoading = false := by
    intro e he
    obtain ⟨argv, -, rfl⟩ := mem_map.mp he
    rfl
  have houtside : OutsideLoading K cx s ((respScanner cx).run (cmds.map respBuildCmd).flatten).1 := by
    rw [hrun]
    intro hreplication ps hps
    exact loading_foldl (hidle hreplication) fun e he => hevents e (hps.subset he)
  have hparse := parseRespStream_outside houtside
  rw [Scanner.call, hrun] at hparse
  rw [parsePlaced, placedLoop_eq]
  exact hparse

/-- Arguments in `scratch`, allocated and in the buffer. -/
def mixedPipeline : List (List Bytes) :=
  [[str "SET", str "a\x00\r\n", List.replicate 4096 120], [str "PING", str "\r\n"], [str "GET", []]]

theorem pipeline_round_trip_mixed :
    parsePlaced idleHooks clientLink (fun _ => 7) () (mixedPipeline.map respBuildCmd).flatten =
      ((), mixedPipeline.map dispatched, []) :=
  pipeline_round_trip idleHooks clientLink (fun _ => 7) () mixedPipeline (by decide +kernel) (by decide +kernel)
    fun _ => rfl

end PocketKv.Resp
