import PocketKv.Resp.Log

/-!
# Commands after a torn one
-/

namespace PocketKv.Resp

open Library List

variable {n : ℕ} {argv as : List Bytes} {t xs more rest h r p u : Bytes}

/-- The arguments break off before a `$`, or after the bytes of an argument. -/
def tornBulks : ℕ → Bytes → Bool
  | 0, _ => false
  | n + 1, xs =>
    xs.isEmpty ||
      match bulkLen bulkLenOf xs with
      | .ok blen r =>
        r.length == blen ||
          match bulkData blen r with
          | .ok _ r' => tornBulks n r'
          | _ => false
      | _ => false

/-- Nothing is there, or an array whose arguments break off at such a place. -/
def tornHarmless : Bytes → Bool
  | [] => true
  | b :: t =>
    b == 42 &&
      match splitCrlf t with
      | none => false
      | some (h, r) =>
        h.length < 32 &&
          match argcOf h with
          | none => false
          | some argc => tornBulks argc r

/-- What later commands begin with: no `$`, no LF, and no CR LF. -/
structure Begins (more : Bytes) : Prop where
  two : 2 ≤ more.length
  dollar : more.head? ≠ some 36
  line : more.head? ≠ some 10
  crlf : ∀ t, more ≠ 13 :: 10 :: t

/-- At `rest` the parser has gone into the later commands, or it is at a fault before the byte with which they
begin. -/
def Astray (more rest : Bytes) : Prop :=
  rest.length < more.length ∨ ∃ d, rest = d ++ more ∧ (d = [13] ∨ ∃ t, d = 36 :: t)

/-! ### One argument -/

lemma cut_torn {sep : Bytes} (hne : sep ≠ []) (ht : cutAt sep t = none) (hs : cutAt sep (t ++ more) = some (h, r)) :
    r.length < more.length := by
  by_contra hlong
  have heq := cutAt_eq hs
  have hprefix : h ++ sep <+: t := by
    refine prefix_of_prefix_length_le ⟨r, heq.symm⟩ (prefix_append t more) ?_
    have hlen := congrArg List.length heq
    simp only [length_append] at hlen ⊢
    omega
  exact cutAt_of_infix hne ((suffix_append h sep).isInfix.trans hprefix.isInfix) ht

lemma rest_of_data {γ : Type} {blen : ℕ} {g : Bytes → Bytes → Read γ} (hg : ∀ arg, Steady (g arg))
    (hrest : ((bulkData blen r).bind g).rest? = some rest) : rest <:+ r.drop blen := by
  unfold bulkData at hrest
  split at hrest
  · cases hrest
  split at hrest
  · rename_i hdrop
    rw [hdrop]
    exact ((hg _).stop hrest).1.trans ⟨[13, 10], rfl⟩
  · cases hrest
    exact suffix_rfl

lemma bulkData_unended {blen : ℕ} (hlong : blen + 2 ≤ r.length) (hdrop : ∀ r', r.drop blen ≠ 13 :: 10 :: r') :
    bulkData blen r = .malformed false (r.drop blen) := by
  rw [bulkData, if_neg (by omega)]
  split
  · rename_i r' hr'
    exact absurd hr' (hdrop r')
  · rfl

/-- The arguments after the first one. -/
def moreBulks (n : ℕ) (arg r : Bytes) : Read (List Bytes) :=
  (readBulks bulkLenOf n r).bind fun args r' => .ok (arg :: args) r'

lemma moreBulks_steady (n : ℕ) (arg : Bytes) : Steady (moreBulks n arg) :=
  (readBulks_steady _ n).bind fun args => steady_ok (arg :: args)

lemma rest_moreBulks (arg : Bytes) : (moreBulks n arg r).rest? = (readBulks bulkLenOf n r).rest? := by
  unfold moreBulks
  cases readBulks bulkLenOf n r <;> rfl

lemma readBulks_succ (n : ℕ) (xs : Bytes) :
    readBulks bulkLenOf (n + 1) xs = (bulkLen bulkLenOf xs).bind fun blen r => (bulkData blen r).bind (moreBulks n) := by
  rw [readBulks, readBulk]
  cases bulkLen bulkLenOf xs <;> rfl

lemma astray_of_header {q : Bytes} (hne : q ≠ []) (hq : bulkLen bulkLenOf q = .incomplete)
    (hrest : (readBulks bulkLenOf (n + 1) (q ++ more)).rest? = some rest) : Astray more rest := by
  cases q with
  | nil => exact absurd rfl hne
  | cons b t =>
    obtain ⟨rfl, ht⟩ : b = 36 ∧ splitCrlf t = none := by
      by_cases hb : b = 36
      swap
      · simp [bulkLen, readHeader, hb, Read.bind] at hq
      refine ⟨hb, ?_⟩
      cases hs : splitCrlf t with
      | none => rfl
      | some hr =>
        simp only [bulkLen, readHeader, hb, if_true, hs] at hq
        split at hq
        · cases hq
        · simp only [Read.bind] at hq
          split at hq <;> cases hq
    rw [readBulks_succ] at hrest
    simp only [bulkLen, readHeader, cons_append, if_true] at hrest
    cases hs : splitCrlf (t ++ more) with
    | none => simp [hs, Read.bind, Read.rest?] at hrest
    | some hr =>
      obtain ⟨h, r⟩ := hr
      have hr := cut_torn (by simp) ht hs
      have hfault (h : some (36 :: (t ++ more)) = some rest) : Astray more rest := by
        obtain rfl := Option.some.inj h
        exact .inr ⟨36 :: t, rfl, .inr ⟨t, rfl⟩⟩
      simp only [hs] at hrest
      split at hrest
      · exact hfault hrest
      · simp only [Read.bind] at hrest
        cases hblen : bulkLenOf h with
        | none =>
          rw [hblen] at hrest
          exact hfault hrest
        | some blen =>
          rw [hblen] at hrest
          have hle := (rest_of_data (moreBulks_steady n) hrest).length_le
          rw [length_drop] at hle
          exact .inl (by omega)

section

variable (hmore : Begins more) {es : List Event}
include hmore

lemma readBulks_harmless {q : Bytes} (hq : tornBulks n q = true) :
    readBulks bulkLenOf n (q ++ more) = .malformed false more := by
  induction n generalizing q with
  | zero => cases hq
  | succ n ih =>
    have htwo := hmore.two
    rw [tornBulks, Bool.or_eq_true, List.isEmpty_iff] at hq
    rcases hq with rfl | hq
    · cases more with
      | nil => simp at htwo
      | cons b t =>
        have hb : b ≠ 36 := fun h => hmore.dollar (by rw [h]; rfl)
        simp [readBulks, readBulk, bulkLen, readHeader, hb, Read.bind]
    cases hlen : bulkLen bulkLenOf q with
    | incomplete | malformed badLen rest => simp [hlen] at hq
    | ok blen r =>
      simp only [hlen, Bool.or_eq_true, beq_iff_eq] at hq
      rw [readBulks_succ, ((bulkLen_steady _).stop (congrArg Read.rest? hlen)).2, hlen]
      simp only [Read.append, Read.bind]
      rcases hq with rfl | hq
      · have hdrop : (r ++ more).drop r.length = more := drop_left
        rw [bulkData_unended (by rw [length_append]; omega) (by rw [hdrop]; exact hmore.crlf), hdrop]
      · cases hdata : bulkData blen r with
        | incomplete | malformed badLen rest => simp [hdata] at hq
        | ok arg r' =>
          rw [hdata] at hq
          rw [((bulkData_steady _).stop (congrArg Read.rest? hdata)).2, hdata]
          simp only [Read.append, moreBulks, ih hq, Read.bind]

lemma readBulks_astray {q u : Bytes} (hok : readBulks bulkLenOf n (q ++ u) = .ok as []) (hu : u ≠ [])
    (hq : tornBulks n q = false) (hrest : (readBulks bulkLenOf n (q ++ more)).rest? = some rest) :
    Astray more rest := by
  induction n generalizing q as with
  | zero =>
    obtain ⟨-, hnil⟩ : [] = as ∧ q ++ u = [] := by simpa [readBulks] using hok
    exact absurd (append_eq_nil_iff.mp hnil).2 hu
  | succ n ih =>
    rw [tornBulks, Bool.or_eq_false_iff] at hq
    obtain ⟨hne, hq⟩ := hq
    rw [readBulks_succ] at hok
    obtain ⟨blen, r₀, hlen, hok⟩ := Read.bind_eq_ok.mp hok
    obtain ⟨arg, r₁, hdata, hok⟩ := Read.bind_eq_ok.mp hok
    obtain ⟨args, _, hok, heq⟩ := Read.bind_eq_ok.mp hok
    cases heq
    cases hx : bulkLen bulkLenOf q with
    | incomplete => exact astray_of_header (by simpa using hne) hx hrest
    | malformed badLen r =>
      rw [((bulkLen_steady _).stop (congrArg Read.rest? hx)).2, hx] at hlen
      cases hlen
    | ok blen r =>
      have happend := ((bulkLen_steady _).stop (congrArg Read.rest? hx)).2
      rw [happend, hx] at hlen
      cases hlen
      rw [readBulks_succ, happend, hx] at hrest
      simp only [Read.append, Read.bind] at hrest
      simp only [hx, Bool.or_eq_false_iff, beq_eq_false_iff_ne] at hq
      obtain ⟨hlength, hq⟩ := hq
      cases hy : bulkData blen r with
      | malformed badLen r' =>
        rw [((bulkData_steady _).stop (congrArg Read.rest? hy)).2, hy] at hdata
        cases hdata
      | ok arg' r' =>
        have happend' := ((bulkData_steady _).stop (congrArg Read.rest? hy)).2
        rw [happend', hy] at hdata
        cases hdata
        rw [happend', hy] at hrest
        rw [hy] at hq
        exact ih hok hq ((rest_moreBulks _).symm.trans hrest)
      | incomplete =>
        -- The bytes of the argument, or the CR LF after them, are not all there.
        have hshort : r.length < blen + 2 := by
          by_contra hlong
          rw [bulkData, if_neg hlong] at hy
          split at hy <;> cases hy
        by_cases hbytes : r.length < blen
        · have hle := (rest_of_data (moreBulks_steady n) hrest).length_le
          rw [length_drop, length_append] at hle
          have htwo := hmore.two
          exact .inl (by omega)
        have hle : blen ≤ r.length := by omega
        obtain ⟨c, hc⟩ : ∃ c, r.drop blen = [c] := length_eq_one_iff.mp (by rw [length_drop]; omega)
        have hdrop (ys : Bytes) : (r ++ ys).drop blen = c :: ys := by
          rw [drop_append_of_le_length hle, hc]
          rfl
        obtain ⟨rfl, -⟩ := List.cons.inj ((hdrop u).symm.trans (bulkData_ok hdata).2)
        have htwo := hmore.two
        rw [bulkData_unended (by rw [length_append]; omega), hdrop] at hrest
        · cases hrest
          exact .inr ⟨[13], rfl, .inl rfl⟩
        · intro r' hr'
          rw [hdrop] at hr'
          exact hmore.line (congrArg List.head? (List.cons.inj hr').2)

/-! ### The torn command -/

lemma respStep_harmless {p : Bytes} (hp : p ≠ []) (hharmless : tornHarmless p = true) :
    respStep replayer (p ++ more) = .take p.length [] := by
  cases p with
  | nil => exact absurd rfl hp
  | cons b t =>
    rw [tornHarmless, Bool.and_eq_true, beq_iff_eq] at hharmless
    obtain ⟨rfl, hh⟩ := hharmless
    cases hsplit : splitCrlf t with
    | none => simp [hsplit] at hh
    | some hr =>
      obtain ⟨h, r⟩ := hr
      simp only [hsplit, Bool.and_eq_true, decide_eq_true_eq] at hh
      obtain ⟨hlen, hh⟩ := hh
      cases hargc : argcOf h with
      | none => simp [hargc] at hh
      | some argc =>
        simp only [hargc] at hh
        have hitem := (Taken.malformed (splitCrlf_append more hsplit) hlen hargc (readBulks_harmless hmore hh)).step
        rw [← cons_append, length_append, Nat.add_sub_cancel] at hitem
        rw [respStep, hitem]
        rfl

omit hmore in
lemma taken_of_respStep (h : respStep replayer xs = .take n es) : ∃ i, Taken argcOf bulkLenOf xs n i := by
  rw [respStep] at h
  cases hv : itemStep argcOf bulkLenOf xs with
  | more => simp [hv, Verdict.emit] at h
  | take m es' =>
    rw [hv] at h
    obtain ⟨rfl, -⟩ := Verdict.take.inj h
    obtain ⟨i, -, hi⟩ := itemStep_taken hv
    exact ⟨i, hi⟩

omit hmore in
/-- A line that does not end in the torn bytes ends among the later commands. -/
lemma drop_of_line {b : UInt8} {i : Item} (hplus : b ≠ 43) (harray : b ≠ 42) (hp : splitLf (b :: t) = none)
    (hi : Taken argcOf bulkLenOf (b :: t ++ more) n i) : ((b :: t ++ more).drop n).length < more.length := by
  rw [cons_append] at hi ⊢
  cases hi with
  | plus => exact absurd rfl hplus
  | «inline» _ _ hs =>
    have hshort := cut_torn (by simp) hp hs
    have hlen := congrArg List.length (splitLf_eq hs)
    rw [length_append, length_cons (a := lf)] at hlen
    rw [length_drop]
    omega
  | _ => exact absurd rfl harray

omit hmore in
/-- An array ends after its header. -/
lemma drop_of_array {i : Item} (hi : Taken argcOf bulkLenOf (42 :: t) n i) :
    ∃ h r, splitCrlf t = some (h, r) ∧ ((42 :: t).drop n).length ≤ r.length := by
  have hlen {h r : Bytes} (hs : splitCrlf t = some (h, r)) : (42 :: t).length = h.length + 3 + r.length := by
    rw [length_cons, splitCrlf_eq hs]
    simp only [length_append, length_cons]
    omega
  cases hi with
  | «inline» _ harray => exact absurd rfl harray
  | longHeader hs | badArgc hs =>
    refine ⟨_, _, hs, ?_⟩
    rw [length_drop, hlen hs]
    omega
  | malformed hs _ _ hbulks | array hs _ _ hbulks =>
    refine ⟨_, _, hs, ?_⟩
    have hle := (readBulks_suffix (congrArg Read.rest? hbulks)).length_le
    rw [length_drop, hlen hs]
    omega

lemma array_astray {i : Item} {argc : ℕ} (hs : splitCrlf (t ++ u) = some (h, r)) (hshort : h.length < 32)
    (hargc : argcOf h = some argc) (hok : readBulks bulkLenOf argc r = .ok argv []) (hu : u ≠ [])
    (hharmless : tornHarmless (42 :: t) = false) (hi : Taken argcOf bulkLenOf (42 :: (t ++ more)) n i) :
    Astray more ((42 :: (t ++ more)).drop n) := by
  cases hsplit : splitCrlf t with
  | none =>
    obtain ⟨h', r', hs', hle⟩ := drop_of_array hi
    exact .inl (hle.trans_lt (cut_torn (by simp) hsplit hs'))
  | some hr =>
    obtain ⟨h₀, r₀⟩ := hr
    have hheader (ys : Bytes) : splitCrlf (t ++ ys) = some (h₀, r₀ ++ ys) := splitCrlf_append ys hsplit
    obtain ⟨rfl, rfl⟩ : h₀ = h ∧ r₀ ++ u = r := by simpa [hheader] using hs
    simp only [tornHarmless, beq_self_eq_true, Bool.true_and, hsplit, hargc, decide_eq_true hshort] at hharmless
    have hrest {rest : Bytes} (h : (readBulks bulkLenOf argc (r₀ ++ more)).rest? = some rest) :
        Astray more ((42 :: (t ++ more)).drop ((42 :: (t ++ more)).length - rest.length)) := by
      have hsuffix : rest <:+ 42 :: (t ++ more) := by
        refine (readBulks_suffix h).trans ?_
        rw [splitCrlf_eq (hheader more)]
        exact ⟨42 :: h₀ ++ [cr, lf], by simp⟩
      rw [← suffix_iff_eq_drop.mp hsuffix]
      exact readBulks_astray hmore hok hu hharmless h
    cases hi with
    | «inline» _ harray => exact absurd rfl harray
    | longHeader hs' hlong =>
      cases (hheader more).symm.trans hs'
      omega
    | badArgc hs' _ hbad =>
      cases (hheader more).symm.trans hs'
      rw [hargc] at hbad
      cases hbad
    | malformed hs' _ hargc' hbulks | array hs' _ hargc' hbulks =>
      cases (hheader more).symm.trans hs'
      cases hargc.symm.trans hargc'
      exact hrest (congrArg Read.rest? hbulks)

lemma respStep_astray (hraw : respStep replayer (p ++ u) = .take (p ++ u).length [.command argv (p ++ u)])
    (hu : u ≠ []) (hharmless : tornHarmless p = false)
    (hstep : respStep replayer (p ++ more) = .take n es) : Astray more ((p ++ more).drop n) := by
  obtain ⟨i, hi, -, hargv⟩ := taken_of_command hraw
  obtain ⟨j, hj⟩ := taken_of_respStep hstep
  have hupos := length_pos_iff.mpr hu
  cases p with
  | nil => cases hharmless
  | cons b t =>
    rw [cons_append] at hi
    generalize hk : (b :: (t ++ u)).length = k at hi
    rcases hargv with rfl | ⟨line, rfl, -⟩
    · cases hi with
      | @array _ h r rest argc _ hs hshort hargc hok =>
        obtain rfl : rest = [] := by
          have hle := (readBulks_suffix (congrArg Read.rest? hok)).length_le
          have hlen := congrArg List.length (splitCrlf_eq hs)
          simp only [length_cons, length_append] at hk hlen
          exact length_eq_zero_iff.mp (by omega)
        exact array_astray hmore hs hshort hargc hok hu hharmless hj
    · cases hi with
      | «inline» hplus harray hs =>
        refine .inl (drop_of_line hplus harray ?_ hj)
        cases hp : splitLf (b :: t) with
        | none => rfl
        | some hr =>
          -- The line would end within the torn bytes.
          have happend := splitLf_append u hp
          rw [cons_append] at happend
          cases happend.symm.trans hs
          have hlen := congrArg List.length (splitLf_eq hp)
          simp only [length_cons, length_append] at hk hlen
          omega

/-! ### The later commands -/

omit hmore in
lemma chompCr_dollar (h : Bytes) : ∃ l, chompCr (36 :: h) = 36 :: l := by
  unfold chompCr
  split
  · cases h with
    | nil =>
      rename_i hlast
      cases hlast
    | cons c h => exact ⟨(c :: h).dropLast, rfl⟩
  · exact ⟨h, rfl⟩

omit hmore in
lemma respStep_dollar (hs : splitLf (36 :: t) = some (h, r)) :
    ∃ argv raw, respStep replayer (36 :: t) = .take (h.length + 1) [.command argv raw] := by
  obtain ⟨h', rfl⟩ : ∃ h', h = 36 :: h' := by
    rw [splitLf_cons, if_neg (by decide)] at hs
    obtain ⟨hr, -, heq⟩ := Option.map_eq_some_iff.mp hs
    cases heq
    exact ⟨hr.1, rfl⟩
  have hargv : splitInlineArgv (chompCr (36 :: h')) 32 ≠ [] := by
    obtain ⟨l, hl⟩ := chompCr_dollar h'
    have hcstr : cstr (36 :: l) = 36 :: cstr l := takeWhile_cons_of_pos (by decide)
    rw [hl, splitInlineArgv, hcstr, ne_eq, tokens_eq_nil_iff fun _ => by decide, all_cons]
    exact fun h => absurd (Bool.and_eq_true _ _ ▸ h).1 (by decide)
  have hitem : itemStep argcOf bulkLenOf (36 :: t) = .take ((36 :: h').length + 1) [.inline (chompCr (36 :: h'))] := by
    rw [itemStep, if_neg (by decide), if_pos (by decide), inlineStep, hs]
  refine ⟨splitInlineArgv (chompCr (36 :: h')) 32, (36 :: t).take ((36 :: h').length + 1), ?_⟩
  rw [respStep, hitem]
  simp [Verdict.emit, respEvents, if_neg hargv]

omit hmore in
lemma commandsIn_of_visited {xs ys : Bytes} (h : ys ∈ (respScanner replayer).visited xs) :
    ys.length ≤ xs.length ∧ (commandsIn ys).length ≤ (commandsIn xs).length := by
  obtain ⟨hsuffix, es, hrun⟩ := Scanner.run_of_visited (respStep_stable replayer) h
  refine ⟨hsuffix.length_le, ?_⟩
  have hcommands : commandsIn xs = es.filterMap Event.argv ++ commandsIn ys := by
    rw [commandsIn, scanLog, hrun, filterMap_append]
    rfl
  rw [hcommands, length_append]
  omega

omit hmore in
lemma not_resumed {d : Bytes} (hd : d = [13] ∨ ∃ t, d = 36 :: t) (hvisited : more ∈ (respScanner replayer).visited (d ++ more)) :
    (commandsIn more).length < (commandsIn (d ++ more)).length := by
  have hstable := respStep_stable replayer
  have hne : more ≠ d ++ more := by
    intro heq
    have hlen := congrArg List.length heq
    rcases hd with rfl | ⟨t, rfl⟩ <;> simp only [length_append, length_cons] at hlen <;> omega
  cases hv : respStep replayer (d ++ more) with
  | more => exact absurd (mem_singleton.mp (Scanner.visited_of_more hv hvisited)) hne
  | take n es =>
    rw [Scanner.visited_of_take hstable hv, mem_cons] at hvisited
    have hrest := commandsIn_of_visited (hvisited.resolve_left hne)
    cases hs : splitLf d with
    | none =>
      -- The line ends among the later commands.
      obtain ⟨i, hi⟩ := taken_of_respStep hv
      have hshort : ((d ++ more).drop n).length < more.length := by
        rcases hd with rfl | ⟨t, rfl⟩
        · exact drop_of_line (by decide) (by decide) hs hi
        · exact drop_of_line (by decide) (by decide) hs hi
      omega
    | some hr =>
      obtain ⟨h, r⟩ := hr
      rcases hd with rfl | ⟨t, rfl⟩
      · cases hs
      obtain ⟨argv, raw, hdollar⟩ : ∃ argv raw, respStep replayer (36 :: t ++ more) = .take (h.length + 1) [.command argv raw] :=
        respStep_dollar (splitLf_append more hs)
      obtain ⟨rfl, rfl⟩ := Verdict.take.inj (hv.symm.trans hdollar)
      have hcommands : commandsIn (36 :: t ++ more) = argv :: commandsIn ((36 :: t ++ more).drop (h.length + 1)) :=
        commandsIn_of_take hv
      rw [hcommands, length_cons]
      omega

lemma resumes_iff (hraw : respStep replayer (p ++ u) = .take (p ++ u).length [.command argv (p ++ u)])
    (hu : u ≠ []) : (more ∈ (respScanner replayer).visited (p ++ more) ∧ commandsIn (p ++ more) = commandsIn more) ↔
      tornHarmless p = true := by
  have hstable := respStep_stable replayer
  have htwo := hmore.two
  constructor
  · rintro ⟨hvisited, hcommands⟩
    by_contra hharmless
    rw [Bool.not_eq_true] at hharmless
    have hne : more ≠ p ++ more := by
      intro heq
      obtain rfl : p = [] := by
        have hlen := congrArg List.length heq
        rw [length_append] at hlen
        exact length_eq_zero_iff.mp (by omega)
      cases hharmless
    cases hv : respStep replayer (p ++ more) with
    | more => exact hne (mem_singleton.mp (Scanner.visited_of_more hv hvisited))
    | take n es =>
      rw [Scanner.visited_of_take hstable hv, mem_cons] at hvisited
      have hrest := hvisited.resolve_left hne
      have hle : (commandsIn ((p ++ more).drop n)).length ≤ (commandsIn (p ++ more)).length := by
        rw [commandsIn_of_take hv, length_append]
        omega
      rcases respStep_astray hmore hraw hu hharmless hv with hshort | ⟨d, hd, hcases⟩
      · exact absurd (commandsIn_of_visited hrest).1 (by omega)
      · rw [hd] at hrest hle
        have := not_resumed hcases hrest
        rw [hcommands] at hle
        omega
  · intro hharmless
    by_cases hp : p = []
    · subst hp
      refine ⟨Scanner.mem_visited_self hstable fun hnil => ?_, rfl⟩
      rw [nil_append] at hnil
      rw [hnil] at htwo
      cases htwo
    · have hv := respStep_harmless hmore hp hharmless
      have hdrop : (p ++ more).drop p.length = more := drop_left
      constructor
      · rw [Scanner.visited_of_take hstable hv, hdrop]
        refine mem_cons_of_mem _ (Scanner.mem_visited_self hstable fun hnil => ?_)
        rw [hnil] at htwo
        cases htwo
      · rw [commandsIn_of_take hv, hdrop]
        rfl

end

lemma tokens_dollar (n : ℕ) (t : Bytes) : ∃ a, (tokens (n + 1) (36 :: t)).head? = some (36 :: a) := by
  have hdrop : (36 :: t).dropWhile isSpace = 36 :: t := dropWhile_cons_of_neg (by decide)
  refine ⟨t.takeWhile fun x => !isSpace x, ?_⟩
  rw [tokens, hdrop]
  rfl

lemma begins_of_command {cx : Caller} {raw : Bytes} (h : respStep cx raw = .take raw.length [.command argv raw])
    (hname : ∀ a, argv.head? = some a → a.head? ≠ some 36) (rest : Bytes) : Begins (raw ++ rest) := by
  obtain ⟨i, hi, -, hargv⟩ := taken_of_command h
  suffices hraw : Begins raw by
    have htwo := hraw.two
    have hhead : (raw ++ rest).head? = raw.head? := head?_append_of_ne_nil _ fun hnil => by simp [hnil] at htwo
    refine ⟨by rw [length_append]; omega, hhead ▸ hraw.dollar, hhead ▸ hraw.line, fun t ht => ?_⟩
    have htake := congrArg (List.take 2) ht
    rw [take_append_of_le_length htwo] at htake
    refine hraw.crlf (raw.drop 2) ?_
    rw [← take_append_drop 2 raw, htake]
    rfl
  generalize hk : raw.length = k at hi
  rcases hargv with rfl | ⟨line, rfl, hargv, hne⟩
  · cases hi with
    | array hs =>
      have hlen := congrArg List.length (splitCrlf_eq hs)
      simp only [length_append, length_cons] at hlen
      exact ⟨by rw [length_cons]; omega, by simp, by simp, fun t ht => by cases ht⟩
  · cases hi with
    | @«inline» b t hd _ _ _ hs =>
      -- The line has a word in it.
      have hword (l : Bytes) (hl : chompCr hd = l) : cstr l ≠ [] := by
        intro hnil
        rw [hl, splitInlineArgv, hnil] at hargv
        exact hne hargv.symm
      rw [splitLf_cons] at hs
      split at hs
      · cases hs
        exact absurd rfl (hword [] rfl)
      rename_i hlf
      obtain ⟨⟨hd', r'⟩, hs', heq⟩ := Option.map_eq_some_iff.mp hs
      cases heq
      refine ⟨by rw [hk, length_cons]; omega, fun hdollar => ?_, fun hline => hlf (Option.some.inj hline), fun t' ht' => ?_⟩
      · obtain rfl := Option.some.inj hdollar
        obtain ⟨l, hl⟩ := chompCr_dollar hd'
        have hcstr : cstr (36 :: l) = 36 :: cstr l := takeWhile_cons_of_pos (by decide)
        rw [hl, splitInlineArgv, hcstr] at hargv
        obtain ⟨a, ha⟩ := tokens_dollar 31 (cstr l)
        rw [hargv] at ha
        exact hname _ ha rfl
      · obtain ⟨rfl, rfl⟩ := List.cons.inj ht'
        rw [splitLf_cons, if_pos (show (10 : UInt8) = lf from rfl)] at hs'
        cases hs'
        exact absurd rfl (hword [] rfl)

end PocketKv.Resp
