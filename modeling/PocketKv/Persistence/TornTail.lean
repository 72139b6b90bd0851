import PocketKv.Persistence.Restart
import PocketKv.Resp.Torn

/-!
# A torn command at the end of the append-only file
-/

namespace PocketKv.Persistence

open Library Resp Store Server List

/-! ### Recovery as execution -/

/-- The data after the dump and the given commands, at the times of the clock. -/
def executed (clock : ℕ → ℤ) (dump : Option Bytes) (argvs : List (List Bytes)) : Db :=
  kvsActiveExpireCycle (clock (1 + argvs.length)) (replay clock 1 (loadDump (clock 0) dump).2 (argvs.map decode))

lemma count_foldl_handle (clock : ℕ → ℤ) (es : List Event) (R : Recovering) :
    (es.foldl (Recovering.handle clock) R).count = R.count + (es.filterMap Event.argv).length := by
  induction es generalizing R with
  | nil => rfl
  | cons e es ih =>
    rw [List.foldl_cons, ih]
    cases e with
    | command argv raw =>
      show R.count + 1 + (es.filterMap Event.argv).length = R.count + ((es.filterMap Event.argv).length + 1)
      omega
    | control c | reply text => rfl

lemma persistRecover_executed (clock : ℕ → ℤ) (dump : Option Bytes) (file : Bytes) :
    persistRecover clock dump false file = executed clock dump (commandsIn (file.drop (header dump))) := by
  have hcount : (replayFile clock file (header dump) ⟨(loadDump (clock 0) dump).2, 1⟩).count =
      1 + (commandsIn (file.drop (header dump))).length := by
    unfold replayFile
    split
    · rename_i hshort
      rw [drop_of_length_le hshort]
      rfl
    · rw [parseRespStream_outside fun _ _ _ => rfl]
      exact count_foldl_handle clock _ _
  unfold persistRecover executed
  simp [loadDump_fst, Bool.false_eq_true, replayFile_db, hcount]

variable {argv : List Bytes}

lemma name_of_wrote {now : ℤ} {s : Db} (h : (exec now s (decode argv)).wrote = true) :
    ∀ a, argv.head? = some a → a.head? ≠ some 36 := by
  intro a ha hdollar
  obtain ⟨rest, rfl⟩ : ∃ rest, argv = a :: rest := by
    cases argv with
    | nil => cases ha
    | cons b rest => exact ⟨rest, by rw [Option.some.inj ha]⟩
  have hcmd : (asciiUpper (cstr a)).head? = some 36 := by
    cases a with
    | nil => cases hdollar
    | cons b a =>
      obtain rfl := Option.some.inj hdollar
      rfl
  have hne (name : String) (hname : (str name).head? ≠ some 36) : asciiUpper (cstr a) ≠ str name := by
    rintro heq
    rw [heq] at hcmd
    exact hname hcmd
  have hcontrol : isControl (asciiUpper (cstr a)) (a :: rest).length = false := by
    refine any_eq_false.mpr fun c hc => ?_
    have hhead : ∀ c ∈ controlCmds, (str c.1).head? ≠ some 36 := by decide
    simp [hne c.1 (hhead c hc)]
  have hstrip : stripPrefix (asciiUpper (cstr a)) = asciiUpper (cstr a) := by
    rw [stripPrefix, hcmd]
    rfl
  have hdecode : ∃ arity, decode (a :: rest) = .unknown arity := by
    unfold decode decodeEngine
    simp only [getD_cons_zero, hcontrol, hstrip, Bool.false_eq_true, if_false]
    simp (disch := decide) only [hne, false_and, if_false]
    exact ⟨_, rfl⟩
  obtain ⟨arity, harity⟩ := hdecode
  rw [harity] at h
  cases h

/-! ### After the crash -/

/-- The append-only file after `persist_init` has opened it again. -/
structure Reopened (A : Aof) (bytes : Bytes) : Prop where
  on : A.On
  enabled : A.disabled = false
  file : A.file = bytes
  outstanding : A.outstanding = []
  cur : A.cur = []
  writeOffset : A.writeOffset = bytes.length

/-- The command of an input. -/
def ServerInput.sent : ServerInput → Option (List Bytes × Bytes)
  | .command _ argv raw => some (argv, raw)
  | _ => none

/-- Writes that succeed and are taken by the append-only file, in their order; no dump and no rewrite. -/
def appends (S : Server) : ServerInput → Bool
  | .command now argv raw => S.written now argv raw
  | .expire .. | .flush => true
  | .complete i => S.ordered (.complete i)
  | .save .. | .bgsave .. | .bgsaveDone | .rewrite .. | .rewriteDone _ => false

/-- The commands sent so far are at the end of the file. -/
structure Appended (dump : Option Bytes) (file : Bytes) (sent : List (List Bytes × Bytes)) (S : Server) : Prop where
  on : S.aof.On
  enabled : S.aof.disabled = false
  dump : S.dump = dump
  content : S.aof.content = file ++ (sent.map Prod.snd).flatten
  commands : ∀ c ∈ sent, respStep clientLink c.2 = .take c.2.length [.command c.1 c.2] ∧ ∀ a, c.1.head? = some a → a.head? ≠ some 36

variable {sent : List (List Bytes × Bytes)} {dump : Option Bytes} {file : Bytes} {S : Server}

section

variable (h : Appended dump file sent S)
include h

lemma Appended.moves {A : Aof} (hA : Moves S.aof A) : Appended dump file sent { S with aof := A } :=
  ⟨hA.on h.on, hA.disabled.trans h.enabled, h.dump, (hA.content h.on).trans h.content, h.commands⟩

lemma Appended.step
    {i : ServerInput} (hi : appends S i = true) : Appended dump file (sent ++ i.sent.toList) (S.step i) := by
  cases i with
  | command now argv raw =>
    simp only [appends, written, Bool.and_eq_true, decide_eq_true_eq] at hi
    obtain ⟨⟨hwrote, hsome⟩, hparsed⟩ := hi
    obtain ⟨A, hA⟩ := Option.isSome_iff_exists.mp hsome
    obtain ⟨hon, hcontent⟩ := persistAppendPrepare_appends h.on hA
    rw [Server.step, command_eq hwrote hA]
    refine ⟨hon, (prepare_disabled hA).trans h.enabled, h.dump, ?_, fun c hc => ?_⟩
    · show A.content = _
      rw [hcontent, h.content]
      simp [ServerInput.sent]
    · rcases mem_append.mp hc with hc | hc
      · exact h.commands c hc
      · obtain rfl := mem_singleton.mp hc
        exact ⟨hparsed, name_of_wrote hwrote⟩
  | expire now x =>
    show Appended dump file (sent ++ []) (S.expire now x)
    rw [append_nil]
    exact { h with }
  | flush =>
    show Appended dump file (sent ++ []) _
    rw [append_nil]
    exact h.moves (moves_flush S.aof)
  | complete i =>
    obtain rfl : i = 0 := of_decide_eq_true hi
    show Appended dump file (sent ++ []) _
    rw [append_nil]
    exact h.moves (moves_complete S.aof)
  | save now order | bgsave now order | bgsaveDone | rewrite now order | rewriteDone order => cases hi

lemma Appended.run
    {is : List ServerInput} (hrun : GuardedRun Server.step (fun S i => appends S i = true) S is) :
    Appended dump file (sent ++ is.filterMap ServerInput.sent) (is.foldl Server.step S) := by
  induction is generalizing sent S with
  | nil =>
    rw [filterMap_nil, append_nil]
    exact h
  | cons i is ih =>
    obtain ⟨hi, hrest⟩ := hrun
    have := ih (h.step hi) hrest
    cases hsent : i.sent with
    | none => simpa [hsent] using this
    | some c => simpa [hsent] using this

end

lemma commandsIn_sent
    (h : ∀ c ∈ sent, respStep clientLink c.2 = .take c.2.length [.command c.1 c.2]) :
    Whole (sent.map Prod.snd).flatten ∧ commandsIn (sent.map Prod.snd).flatten = sent.map Prod.fst := by
  induction sent with
  | nil => exact ⟨rfl, rfl⟩
  | cons c sent ih =>
    obtain ⟨hwhole, hcommands⟩ := ih fun d hd => h d (mem_cons_of_mem _ hd)
    obtain ⟨hc, hargv⟩ := whole_command (h c mem_cons_self)
    rw [map_cons, flatten_cons, commandsIn_append hc, hargv, hcommands]
    exact ⟨hc.append hwhole, rfl⟩

lemma commandsIn_torn {p u : Bytes} (hraw : respStep replayer (p ++ u) = .take (p ++ u).length [.command argv (p ++ u)])
    (hu : u ≠ []) : commandsIn p = [] := by
  have hstable := respStep_stable replayer
  have hmore : respStep replayer p = .more := by
    cases hv : respStep replayer p with
    | more => rfl
    | take n es =>
      have hn := (Verdict.take.inj ((hstable.append u hv).symm.trans hraw)).1
      have hle := hstable.le hv
      have hpos := length_pos_iff.mpr hu
      rw [length_append] at hn
      omega
  have hstep : (respScanner replayer).step p = .more := hmore
  rw [commandsIn, scanLog, Scanner.run_of_more hstep]
  rfl

lemma resumes_sent {C p u : Bytes} (hC : Whole C)
    (htorn : respStep replayer (p ++ u) = .take (p ++ u).length [.command argv (p ++ u)]) (hu : u ≠ [])
    (h : ∀ c ∈ sent, respStep clientLink c.2 = .take c.2.length [.command c.1 c.2] ∧ ∀ a, c.1.head? = some a → a.head? ≠ some 36) :
    (commandsIn (C ++ (p ++ (sent.map Prod.snd).flatten)) = commandsIn C ++ sent.map Prod.fst ∧
      (sent = [] ∨ (sent.map Prod.snd).flatten ∈ (respScanner replayer).visited (p ++ (sent.map Prod.snd).flatten))) ↔
      sent = [] ∨ tornHarmless p = true := by
  have hsent := (commandsIn_sent fun c hc => (h c hc).1).2
  rw [commandsIn_append hC, append_cancel_left_eq, ← hsent]
  cases sent with
  | nil =>
    refine iff_of_true ⟨?_, .inl rfl⟩ (.inl rfl)
    rw [map_nil, flatten_nil, append_nil]
    exact commandsIn_torn htorn hu
  | cons c cs =>
    have hbegins : Begins ((c :: cs).map Prod.snd).flatten := by
      obtain ⟨hparsed, hname⟩ := h c mem_cons_self
      exact begins_of_command hparsed hname _
    rw [or_iff_right (cons_ne_nil c cs), or_iff_right (cons_ne_nil c cs), ← resumes_iff hbegins htorn hu]
    exact and_comm

/-- `SET a 1`. -/
def setA : Bytes := respBuildCmd [str "SET", str "a", str "1"]

/-- `SET b hello` up to the given length. -/
def tornB (n : ℕ) : Bytes := (respBuildCmd [str "SET", str "b", str "hello"]).take n

/-- The server that has recovered from a file which ends with the torn command. -/
def afterCrash (n : ℕ) : Server where
  db := persistRecover (fun _ => 5000) none false (setA ++ tornB n)
  aof := { file := setA ++ tornB n, writeOffset := (setA ++ tornB n).length }

/-- After the restart, `SET c 2`. -/
def setC : List ServerInput := [request 6000 ["SET", "c", "2"], .flush, .complete 0]

end PocketKv.Persistence
