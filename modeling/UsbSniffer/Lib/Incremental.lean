import Mathlib.Tactic

/-!
# Incremental machines

A machine that eats a growing list from its front: at a control state
`c` and unread input `l` it either makes a step, which may drop a
prefix of `l` and emit output, or waits for more input. Two facts make
it INCREMENTAL: a step it can make on `l` is the same step on every
extension of `l`, and a measure bounds the number of steps.

For such a machine running it to a standstill after every piece of the
input, however the input is cut, gives the output of one run on the
whole input (`Incremental.drain_append`). An implementation may leave
its own leftovers behind, as long as they drain silently to the state
of the machine (`Implements`); its output is then the machine's on
every cut (`Implements.feedAll`).
-/

namespace UsbSniffer.Lib

/-- A machine over control states `σ`, input letters `α` and output
letters `ω`, with the two facts that make it incremental. -/
structure Incremental (σ α ω : Type) where
  step : σ → List α → Option (σ × List α × List ω)
  size : σ → List α → Nat
  step_lt : ∀ {c l c' l' o}, step c l = some (c', l', o) → size c' l' < size c l
  step_append : ∀ {c l c' l' o} (x : List α), step c l = some (c', l', o) →
    step c (l ++ x) = some (c', l' ++ x, o)

namespace Incremental

variable {σ α ω : Type} (M : Incremental σ α ω)

/-- Run to a standstill: the control state, the unread input and the
output emitted on the way. -/
def drain (c : σ) (l : List α) : σ × List α × List ω :=
  match _h : M.step c l with
  | none => (c, l, [])
  | some (c', l', o) =>
      let r := drain c' l'
      (r.1, r.2.1, o ++ r.2.2)
termination_by M.size c l
decreasing_by exact M.step_lt _h

variable {M}

theorem drain_of_none {c : σ} {l : List α} (h : M.step c l = none) :
    M.drain c l = (c, l, []) := by
  rw [drain]
  split
  · rfl
  · rename_i h'
    rw [h] at h'
    cases h'

theorem drain_of_some {c c' : σ} {l l' : List α} {o : List ω}
    (h : M.step c l = some (c', l', o)) :
    M.drain c l = ((M.drain c' l').1, (M.drain c' l').2.1, o ++ (M.drain c' l').2.2) := by
  rw [drain]
  split
  · rename_i h'
    rw [h] at h'
    cases h'
  · rename_i h'
    rw [h] at h'
    cases h'
    rfl

/-- A silent step does not change where the machine comes to rest. -/
theorem drain_of_silent {c c' : σ} {l l' : List α}
    (h : M.step c l = some (c', l', [])) : M.drain c l = M.drain c' l' := by
  rw [drain_of_some h]
  rfl

/-- At a standstill the machine waits. -/
theorem step_drain (c : σ) (l : List α) :
    M.step (M.drain c l).1 (M.drain c l).2.1 = none := by
  fun_induction drain M c l with
  | case1 c l h => exact h
  | case2 c l c' l' o h r ih => exact ih

/-- **Input may be cut anywhere**: draining `l ++ x` is draining `l`,
then the rest of `l` with `x` behind it. -/
theorem drain_append (c : σ) (l x : List α) :
    M.drain c (l ++ x) =
      (let r := M.drain c l
       let r' := M.drain r.1 (r.2.1 ++ x)
       (r'.1, r'.2.1, r.2.2 ++ r'.2.2)) := by
  fun_induction drain M c l with
  | case1 c l h => rfl
  | case2 c l c' l' o h r ih =>
      rw [drain_of_some (M.step_append x h), ih]
      simp only [r, List.append_assoc]

/-- A run through states that only make silent steps is silent. -/
theorem drain_quiet (P : σ → List α → Prop)
    (hstep : ∀ {c l c' l' o}, P c l → M.step c l = some (c', l', o) → o = [] ∧ P c' l')
    {c : σ} {l : List α} (h : P c l) : (M.drain c l).2.2 = [] := by
  fun_induction drain M c l with
  | case1 c l hw => rfl
  | case2 c l c' l' o hs r ih =>
      obtain ⟨ho, hP⟩ := hstep h hs
      rw [ho]
      exact ih hP

end Incremental

/-! ## A machine that sees part of another's output -/

section
variable {σ τ α ω ω' : Type}

/-- `N` emits what `see` keeps of the output of `M`: where `M` waits `N`
is silent, and a step of `M` shows in `N` as what is kept of its output.
The two may take different steps in between. -/
structure Watches (N : Incremental τ α ω') (M : Incremental σ α ω) (ctl : σ → τ)
    (see : ω → Option ω') : Prop where
  wait : ∀ {c l}, M.step c l = none → (N.drain (ctl c) l).2.2 = []
  step : ∀ {c l c' l' o}, M.step c l = some (c', l', o) →
    (N.drain (ctl c) l).2.2 = o.filterMap see ++ (N.drain (ctl c') l').2.2

/-- **The output of the watching machine** is what is kept of the whole
output. -/
theorem Watches.drain {N : Incremental τ α ω'} {M : Incremental σ α ω} {ctl : σ → τ}
    {see : ω → Option ω'} (h : Watches N M ctl see) (c : σ) (l : List α) :
    (N.drain (ctl c) l).2.2 = (M.drain c l).2.2.filterMap see := by
  fun_induction Incremental.drain M c l with
  | case1 c l hw => exact h.wait hw
  | case2 c l c' l' o hs r ih => rw [h.step hs, ih, ← List.filterMap_append]

end

/-! ## Implementations with leftovers of their own -/

section
variable {σ α ω S : Type}

/-- `feed` implements `M` under the reading `abs` of its states, on the
states that satisfy `inv`: a piece of input makes it emit what `M` emits,
and what it then holds drains silently to the state of `M`. -/
structure Implements (M : Incremental σ α ω) (inv : S → Prop)
    (abs : S → σ × List α) (feed : S → List α → Option (S × List ω)) : Prop where
  feed_spec : ∀ {s : S} {c : σ} {l : List α} (x : List α), inv s →
    M.drain (abs s).1 (abs s).2 = (c, l, []) →
    ∃ s' o, feed s x = some (s', o) ∧ inv s' ∧ (M.drain c (l ++ x)).2.2 = o ∧
      M.drain (abs s').1 (abs s').2 =
        ((M.drain c (l ++ x)).1, (M.drain c (l ++ x)).2.1, [])

/-- Feed the pieces of a cut one after another, collecting the output. -/
def feedAll (feed : S → List α → Option (S × List ω)) :
    S → List (List α) → Option (S × List ω)
  | s, [] => some (s, [])
  | s, x :: xs => do
      let (s₁, o₁) ← feed s x
      let (s₂, o₂) ← feedAll feed s₁ xs
      pure (s₂, o₁ ++ o₂)

/-- Feeding a first piece, taken apart. -/
theorem feedAll_cons_some {feed : S → List α → Option (S × List ω)} {s s' : S} {x : List α}
    {xs : List (List α)} {o : List ω} (h : feedAll feed s (x :: xs) = some (s', o)) :
    ∃ s₁ o₁ o₂, feed s x = some (s₁, o₁) ∧ feedAll feed s₁ xs = some (s', o₂) ∧ o = o₁ ++ o₂ := by
  rw [feedAll, Option.bind_eq_bind, Option.bind_eq_some_iff] at h
  obtain ⟨⟨s₁, o₁⟩, h₁, h⟩ := h
  obtain ⟨⟨s₂, o₂⟩, h₂, h⟩ := Option.bind_eq_some_iff.mp h
  cases h
  exact ⟨s₁, o₁, o₂, h₁, h₂, rfl⟩

theorem feedAll_singleton (feed : S → List α → Option (S × List ω)) (s : S) (x : List α) :
    feedAll feed s [x] = feed s x := by
  rw [feedAll]
  cases feed s x with
  | none => rfl
  | some r => simp [feedAll]

variable {M : Incremental σ α ω} {inv : S → Prop} {abs : S → σ × List α}
  {feed : S → List α → Option (S × List ω)}

/-- **However the input is cut**, the implementation emits what the
machine emits on the whole of it, and ends in a reading of the
machine's final state. -/
theorem Implements.feedAll (h : Implements M inv abs feed) {s : S} {c : σ} {l : List α}
    (xs : List (List α)) (hs : inv s) (ha : M.drain (abs s).1 (abs s).2 = (c, l, []))
    (hd : M.step c l = none) :
    ∃ s' o, feedAll feed s xs = some (s', o) ∧ inv s' ∧
      (M.drain c (l ++ xs.flatten)).2.2 = o ∧
      M.drain (abs s').1 (abs s').2 =
        ((M.drain c (l ++ xs.flatten)).1, (M.drain c (l ++ xs.flatten)).2.1, []) := by
  induction xs generalizing s c l with
  | nil =>
      refine ⟨s, [], rfl, hs, ?_, ?_⟩
      · simp [Incremental.drain_of_none hd]
      · simp [Incremental.drain_of_none hd, ha]
  | cons x xs ih =>
      obtain ⟨s₁, o₁, h₁, hs₁, ho₁, ha₁⟩ := h.feed_spec x hs ha
      obtain ⟨s₂, o₂, h₂, hs₂, ho₂, ha₂⟩ := ih hs₁ ha₁ (Incremental.step_drain _ _)
      have hcut := Incremental.drain_append (M := M) c (l ++ x) xs.flatten
      rw [List.append_assoc] at hcut
      simp only [List.flatten_cons, hcut]
      refine ⟨s₂, o₁ ++ o₂, ?_, hs₂, by rw [ho₁, ho₂], ha₂⟩
      simp [Lib.feedAll, h₁, h₂]

/-- Two implementations that agree on the states and pieces that occur
agree on every cut. -/
theorem feedAll_congr (feed feed' : S → List α → Option (S × List ω)) {P : List α → Prop}
    (heq : ∀ {s x}, inv s → P x → feed s x = feed' s x)
    (hinv : ∀ {s x s' o}, inv s → feed' s x = some (s', o) → inv s')
    {s : S} (xs : List (List α)) (hs : inv s) (hx : ∀ x ∈ xs, P x) :
    feedAll feed s xs = feedAll feed' s xs := by
  induction xs generalizing s with
  | nil => rfl
  | cons x xs ih =>
      rw [feedAll, feedAll, heq hs (hx x (by simp))]
      cases hf : feed' s x with
      | none => rfl
      | some r =>
          obtain ⟨s', o⟩ := r
          have hrest := ih (hinv hs hf) (fun y hy => hx y (by simp [hy]))
          simp only [Option.bind_eq_bind, Option.bind_some, hrest]

end

end UsbSniffer.Lib
