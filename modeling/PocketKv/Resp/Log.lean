import PocketKv.Resp.Framer

/-!
# Logs of commands
-/

namespace PocketKv.Resp

open Library List

variable {n : ℕ} {raw log xs : Bytes} {cx : Caller}

lemma taken_of_command {argv : List Bytes} (h : respStep cx xs = .take n [.command argv raw]) :
    ∃ i, Taken argcOf bulkLenOf xs n i ∧ raw = xs.take n ∧
      (i = .array argv ∨ ∃ line, i = .inline line ∧ splitInlineArgv line 32 = argv ∧ argv ≠ []) := by
  unfold respStep at h
  cases hv : itemStep argcOf bulkLenOf xs with
  | more => simp [hv, Verdict.emit] at h
  | take m es =>
    obtain ⟨i, rfl, hi⟩ := itemStep_taken hv
    simp only [hv, Verdict.emit, flatMap_singleton, Verdict.take.injEq] at h
    obtain ⟨rfl, hev⟩ := h
    refine ⟨i, hi, ?_⟩
    have hreply (text : String) : replyIf cx text ≠ [.command argv raw] := by
      unfold replyIf
      split <;> simp
    cases i with
    | plus line =>
      simp only [respEvents] at hev
      split at hev
      · cases hev
      · cases hc : controlOf cx (splitInlineArgv line 8) <;> simp [hc] at hev
    | longHeader => cases hev
    | badArgc => exact absurd hev (hreply _)
    | malformed badLen =>
      cases badLen with
      | false => cases hev
      | true => exact absurd hev (hreply _)
    | inline line =>
      simp only [respEvents] at hev
      split at hev
      · cases hev
      · rename_i hne
        cases hev
        exact ⟨rfl, .inr ⟨line, rfl, rfl, hne⟩⟩
    | array argv =>
      cases hev
      exact ⟨rfl, .inl rfl⟩

lemma respStep_command (cx' : Caller) {argv : List Bytes}
    (h : respStep cx xs = .take n [.command argv raw]) : respStep cx' xs = .take n [.command argv raw] := by
  obtain ⟨i, hi, rfl, hargv⟩ := taken_of_command h
  rw [respStep, hi.step]
  rcases hargv with rfl | ⟨line, rfl, rfl, hne⟩
  · rfl
  · simp [Verdict.emit, respEvents, if_neg hne]

lemma head_of_command {argv : List Bytes} (h : respStep cx xs = .take n [.command argv raw]) : xs.head? ≠ some 43 := by
  obtain ⟨i, hi, -, rfl | ⟨line, rfl, -⟩⟩ := taken_of_command h
  · cases hi
    simp
  · cases hi
    simpa

/-- A log is replayed as if it came from the master, without a connection. -/
def replayer : Caller where
  conn := false
  fromReplication := true
  master := true

/-- The arguments of a command. -/
def Event.argv : Event → Option (List Bytes)
  | .command argv _ => some argv
  | _ => none

/-- What the parser does with a log, and what it leaves. -/
def scanLog (log : Bytes) : List Event × Bytes := (respScanner replayer).run log

/-- The commands in a log. -/
def commandsIn (log : Bytes) : List (List Bytes) := (scanLog log).1.filterMap Event.argv

/-- The log ends with an item. -/
def Whole (log : Bytes) : Prop := (scanLog log).2 = []

instance (log : Bytes) : Decidable (Whole log) := inferInstanceAs (Decidable (_ = _))

@[simp] lemma whole_nil : Whole [] := rfl

@[simp] lemma commandsIn_nil : commandsIn [] = [] := rfl

lemma scanLog_append (h : Whole log) (more : Bytes) :
    scanLog (log ++ more) = ((scanLog log).1 ++ (scanLog more).1, (scanLog more).2) := by
  have hrun := Scanner.run_append (S := respScanner replayer) (respStep_stable replayer) log more
  rw [show ((respScanner replayer).run log).2 = [] from h, nil_append] at hrun
  exact hrun

lemma Whole.append {log more : Bytes} (h : Whole log) (hmore : Whole more) : Whole (log ++ more) := by
  unfold Whole
  rw [scanLog_append h]
  exact hmore

lemma commandsIn_append (h : Whole log) (more : Bytes) :
    commandsIn (log ++ more) = commandsIn log ++ commandsIn more := by
  simp only [commandsIn, scanLog_append h, filterMap_append]

lemma commandsIn_of_take {es : List Event} (h : respStep replayer log = .take n es) :
    commandsIn log = es.filterMap Event.argv ++ commandsIn (log.drop n) := by
  have hstep : (respScanner replayer).step log = .take n es := h
  rw [commandsIn, scanLog, Scanner.run_of_take (respStep_stable replayer) hstep, filterMap_append]
  rfl

lemma whole_command {argv : List Bytes}
    (h : respStep cx raw = .take raw.length [.command argv raw]) : Whole raw ∧ commandsIn raw = [argv] := by
  have hstep := respStep_command replayer h
  have hrun : scanLog raw = ([.command argv raw], []) := by
    unfold scanLog
    rw [Scanner.run_of_take (respStep_stable replayer) hstep, drop_length]
    rfl
  exact ⟨congrArg Prod.snd hrun, by rw [commandsIn, hrun]; rfl⟩

lemma whole_flatten {logs : List Bytes} (h : ∀ log ∈ logs, Whole log) :
    Whole logs.flatten ∧ commandsIn logs.flatten = logs.flatMap commandsIn := by
  induction logs with
  | nil => exact ⟨rfl, rfl⟩
  | cons log logs ih =>
    obtain ⟨hwhole, hcommands⟩ := ih fun l hl => h l (mem_cons_of_mem _ hl)
    have hlog := h log mem_cons_self
    rw [flatten_cons, flatMap_cons, commandsIn_append hlog, hcommands]
    exact ⟨hlog.append hwhole, rfl⟩

end PocketKv.Resp
