import PocketKv.Library.Writes

/-!
# Operations that may be refused
-/

namespace PocketKv.Library

variable {κ ν : Type*}

variable {m : κ → Option ν}

/-- What is assigned to some cells, and the memories on which this is not refused. -/
structure Op (κ ν : Type*) where
  assigns : κ → Option (Option ν)
  accepts : (κ → Option ν) → Bool

namespace Op

/-- What the operation stands for. -/
def overwrite (o : Op κ ν) (m : κ → Option ν) : κ → Option ν := fun c => (o.assigns c).getD (m c)

/-- What it does. -/
def apply (o : Op κ ν) (m : κ → Option ν) : κ → Option ν := if o.accepts m then o.overwrite m else m

/-- It leaves what it stands for. -/
def Settles (o : Op κ ν) (m : κ → Option ν) : Prop := o.apply m = o.overwrite m

/-- A cell for which it is refused on one memory, and which is alike on another one where it settles, holds what it
stands for. -/
def Local (o : Op κ ν) : Prop :=
  ∀ m m', o.Settles m → o.accepts m' = false → ∀ c, m' c = m c → m' c = o.overwrite m c

lemma settles_of_accepts {o : Op κ ν} (h : o.accepts m = true) : o.Settles m := by
  simp [Settles, apply, h]

/-- Nothing is assigned. -/
def skip : Op κ ν := ⟨fun _ => none, fun _ => true⟩

/-- Cells are assigned to, and this is never refused. -/
def assign (a : κ → Option (Option ν)) : Op κ ν := ⟨a, fun _ => true⟩

@[simp] lemma skip_overwrite (m : κ → Option ν) : (skip : Op κ ν).overwrite m = m := rfl

@[simp] lemma skip_apply (m : κ → Option ν) : (skip : Op κ ν).apply m = m := rfl

@[simp] lemma assign_apply (a : κ → Option (Option ν)) (m : κ → Option ν) :
    (assign a).apply m = fun c => (a c).getD (m c) := rfl

lemma local_assign (a : κ → Option (Option ν)) : (assign a).Local := fun _ _ _ h => by cases h

variable [DecidableEq κ]

/-- One cell is assigned to. -/
def assignCell (c : κ) (v : Option ν) : Op κ ν := assign (Function.update (fun _ => none) c (some v))

/-- One cell is assigned to if `p` holds of what is there. -/
def assignIf (c : κ) (v : Option ν) (p : Option ν → Bool) : Op κ ν :=
  ⟨Function.update (fun _ => none) c (some v), fun m => p (m c)⟩

/-- A sequence of writes. -/
def writes (ws : List (κ × ν)) : Op κ ν := assign fun c => (applyWrites (fun _ => none) ws c).map some

lemma overwrite_cell (c : κ) (v : Option ν) (f : (κ → Option ν) → Bool) (m : κ → Option ν) :
    (⟨Function.update (fun _ => none) c (some v), f⟩ : Op κ ν).overwrite m = Function.update m c v := by
  funext x
  by_cases hx : x = c
  · subst hx
    simp [overwrite]
  · simp [overwrite, hx]

@[simp] lemma assignCell_overwrite (c : κ) (v : Option ν) (m : κ → Option ν) :
    (assignCell c v).overwrite m = Function.update m c v := overwrite_cell c v _ m

@[simp] lemma assignCell_apply (c : κ) (v : Option ν) (m : κ → Option ν) :
    (assignCell c v).apply m = Function.update m c v := overwrite_cell c v _ m

@[simp] lemma assignIf_overwrite (c : κ) (v : Option ν) (p : Option ν → Bool) (m : κ → Option ν) :
    (assignIf c v p).overwrite m = Function.update m c v := overwrite_cell c v _ m

lemma assignIf_apply (c : κ) (v : Option ν) (p : Option ν → Bool) (m : κ → Option ν) :
    (assignIf c v p).apply m = if p (m c) then Function.update m c v else m := by
  unfold apply
  rw [assignIf_overwrite]
  rfl

@[simp] lemma writes_apply (ws : List (κ × ν)) (m : κ → Option ν) : (writes ws).apply m = applyWrites m ws := by
  funext c
  by_cases hc : c ∈ ws.map Prod.fst
  · have hsome : applyWrites (fun _ => none) ws c ≠ none := applyWrites_ne_none_of_mem hc _
    obtain ⟨v, hv⟩ := Option.ne_none_iff_exists'.mp hsome
    rw [applyWrites_of_mem hc m fun _ => none]
    simp [writes, hv]
  · simp [writes, applyWrites_of_notMem hc]

@[simp] lemma writes_overwrite (ws : List (κ × ν)) (m : κ → Option ν) :
    (writes ws).overwrite m = applyWrites m ws := writes_apply ws m

lemma local_assignIf (c : κ) (v : Option ν) (p : Option ν → Bool) : (assignIf c v p).Local := by
  intro m m' hsettles hrefused x hx
  have hp : p (m' c) = false := hrefused
  by_cases hxc : x = c
  · subst hxc
    rw [hx] at hp
    have hm : m = (assignIf x v p).overwrite m := by
      unfold Settles at hsettles
      rw [assignIf_apply, if_neg (by simp [hp])] at hsettles
      exact hsettles
    rw [hx, ← hm]
  · rw [assignIf_overwrite, Function.update_of_ne hxc, hx]

end Op

/-- Each operation settles, one after the other. -/
def Settled : List (Op κ ν) → (κ → Option ν) → Prop
  | [], _ => True
  | o :: os, m => o.Settles m ∧ Settled os (o.apply m)

/-- The operations one after the other. -/
def applyAll (os : List (Op κ ν)) (m : κ → Option ν) : κ → Option ν := os.foldl (fun m o => o.apply m) m

lemma applyAll_append (os ps : List (Op κ ν)) (m : κ → Option ν) :
    applyAll (os ++ ps) m = applyAll ps (applyAll os m) := List.foldl_append

lemma Settled.append {os ps : List (Op κ ν)} :
    Settled (os ++ ps) m ↔ Settled os m ∧ Settled ps (applyAll os m) := by
  induction os generalizing m with
  | nil => simp [Settled, applyAll]
  | cons o os ih =>
    rw [List.cons_append, Settled, ih, Settled, and_assoc]
    rfl

lemma Op.between {o : Op κ ν} (ho : o.Local) {m' n : κ → Option ν} (hsettles : o.Settles m)
    (h : ∀ c, m' c = m c ∨ m' c = n c) (c : κ) : o.apply m' c = o.apply m c ∨ o.apply m' c = n c := by
  rw [show o.apply m = o.overwrite m from hsettles]
  cases haccepts : o.accepts m' with
  | true =>
    rw [show o.apply m' = o.overwrite m' by simp [apply, haccepts]]
    unfold overwrite
    cases o.assigns c with
    | some v => exact .inl rfl
    | none => exact h c
  | false =>
    rw [show o.apply m' = m' by simp [apply, haccepts]]
    rcases h c with hm | hn
    · exact .inl (ho m m' hsettles haccepts c hm)
    · exact .inr hn

lemma Settled.again {os : List (Op κ ν)} (hlocal : ∀ o ∈ os, o.Local) (h : Settled os m) :
    applyAll os (applyAll os m) = applyAll os m := by
  suffices hbetween : ∀ m', (∀ c, m' c = m c ∨ m' c = applyAll os m c) →
      ∀ c, applyAll os m' c = applyAll os m c by
    funext c
    exact hbetween _ (fun _ => .inr rfl) c
  -- the end stays the same, while the beginning moves towards it
  suffices hrun : ∀ (n m' : κ → Option ν), (∀ c, m' c = m c ∨ m' c = n c) →
      ∀ c, applyAll os m' c = applyAll os m c ∨ applyAll os m' c = n c by
    intro m' hm' c
    rcases hrun _ m' hm' c with hc | hc <;> exact hc
  induction os generalizing m with
  | nil => exact fun n m' hm' => hm'
  | cons o os ih =>
    intro n m' hm'
    exact ih (fun p hp => hlocal p (List.mem_cons_of_mem _ hp)) h.2 n _
      (Op.between (hlocal o List.mem_cons_self) h.1 hm')

end PocketKv.Library
