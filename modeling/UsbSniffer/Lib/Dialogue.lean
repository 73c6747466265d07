import Mathlib.Tactic

/-!
# Programs that talk to a device

A program makes calls one after another and goes on with what is
answered. The other party is arbitrary: an answer may depend on
everything that was said before, and a call may fail. What was said and
answered is the LOG, and a program that stops with an error leaves its
log behind too.

What a log means is the reader's choice: a `step` function folds it into
whatever state the calls are about, the memory of the device for
instance. Triples speak of that state before and after a program, for
both ways it can end. They hold against every device.
-/

namespace UsbSniffer.Lib.Dialogue

/-- The calls so far, each with its answer, if it had one. -/
abbrev Log (C R : Type) := List (C × Option R)

/-- The other party. -/
abbrev Peer (C R : Type) := Log C R → C → Option R

/-- A program of calls `C`, answered by `R`, that gives an `α` or stops
with an `ε`. -/
structure Prog (C R ε α : Type) where
  exec : Peer C R → Log C R → Except ε α × Log C R

namespace Prog

variable {C R ε α β : Type}

instance : Monad (Prog C R ε) where
  pure x := ⟨fun _ log => (.ok x, log)⟩
  bind m f :=
    ⟨fun peer log =>
      match m.exec peer log with
      | (.ok x, log') => (f x).exec peer log'
      | (.error e, log') => (.error e, log')⟩

/-- A call; `e` is the error if it fails. -/
def call (c : C) (e : ε) : Prog C R ε R where
  exec peer log :=
    match peer log c with
    | some r => (.ok r, log ++ [(c, some r)])
    | none => (.error e, log ++ [(c, none)])

/-- Stop. -/
def stop (e : ε) : Prog C R ε α := ⟨fun _ log => (.error e, log)⟩

/-- Go on only if `b`. -/
def check (b : Prop) [Decidable b] (e : ε) : Prog C R ε Unit := if b then pure () else stop e

/-- `body 0`, …, `body (n - 1)`. -/
def upTo : Nat → (Nat → Prog C R ε Unit) → Prog C R ε Unit
  | 0, _ => pure ()
  | n + 1, body => do
      upTo n body
      body n

/-- Repeat `body` as long as it says so. A number of turns is given, and
`late` is the error if they are not enough. -/
def repeatWhile : Nat → ε → Prog C R ε Bool → Prog C R ε Unit
  | 0, late, _ => stop late
  | turns + 1, late, body => do
      if ← body then repeatWhile turns late body

end Prog

/-! ## Triples -/

section Triples

variable {C R ε α β A : Type} (step : A → C × Option R → A)

/-- From `P`, the program ends with a value and `Q`, or with an error and
`E`. -/
def Triple (P : A → Prop) (m : Prog C R ε α) (Q : α → A → Prop) (E : ε → A → Prop) : Prop :=
  ∀ peer log a, P (log.foldl step a) →
    (∀ x, (m.exec peer log).1 = .ok x → Q x ((m.exec peer log).2.foldl step a)) ∧
      ∀ e, (m.exec peer log).1 = .error e → E e ((m.exec peer log).2.foldl step a)

variable {step} {P P' : A → Prop} {Q Q' : α → A → Prop} {E E' : ε → A → Prop}
  {m : Prog C R ε α}

namespace Triple

theorem conseq (h : Triple step P m Q E) (hP : ∀ a, P' a → P a) (hQ : ∀ x a, Q x a → Q' x a)
    (hE : ∀ e a, E e a → E' e a) : Triple step P' m Q' E' := by
  intro peer log a ha
  obtain ⟨hok, herror⟩ := h peer log a (hP _ ha)
  exact ⟨fun x hx => hQ _ _ (hok x hx), fun e he => hE _ _ (herror e he)⟩

theorem pre (h : Triple step P m Q E) (hP : ∀ a, P' a → P a) : Triple step P' m Q E :=
  h.conseq hP (fun _ _ h => h) fun _ _ h => h

theorem post (h : Triple step P m Q E) (hQ : ∀ x a, Q x a → Q' x a) : Triple step P m Q' E :=
  h.conseq (fun _ h => h) hQ fun _ _ h => h

theorem pure {x : α} (h : ∀ a, P a → Q x a) : Triple step P (Pure.pure x : Prog C R ε α) Q E := by
  intro peer log a ha
  refine ⟨fun y hy => ?_, fun e he => (by cases he)⟩
  cases hy
  exact h _ ha

theorem bind {f : α → Prog C R ε β} {S : β → A → Prop} (hm : Triple step P m Q E)
    (hf : ∀ x, Triple step (Q x) (f x) S E) : Triple step P (m >>= f) S E := by
  intro peer log a ha
  obtain ⟨hok, herror⟩ := hm peer log a ha
  have hbind : (m >>= f).exec peer log = match m.exec peer log with
    | (.ok x, log') => (f x).exec peer log'
    | (.error e, log') => (.error e, log') := rfl
  rw [hbind]
  rcases hrun : m.exec peer log with ⟨r, log'⟩
  rw [hrun] at hok herror
  cases r with
  | ok x => exact hf x peer log' a (hok x rfl)
  | error e =>
      refine ⟨fun y hy => (by cases hy), fun e' he' => ?_⟩
      cases he'
      exact herror e rfl

/-- One after another, without a value. -/
theorem seq {f : Prog C R ε β} {M : A → Prop} {S : β → A → Prop}
    (hm : Triple step P m (fun _ => M) E) (hf : Triple step M f S E) :
    Triple step P (m >>= fun _ => f) S E :=
  hm.bind fun _ => hf

/-- A call adds itself to the log. -/
theorem call {c : C} {e : ε} {Q : R → A → Prop} (hok : ∀ a r, P a → Q r (step a (c, some r)))
    (herror : ∀ a, P a → E e (step a (c, none))) : Triple step P (Prog.call c e) Q E := by
  intro peer log a ha
  dsimp only [Prog.call]
  cases peer log c with
  | some r =>
      refine ⟨fun x hx => ?_, fun e he => (by cases he)⟩
      cases hx
      simp only [List.foldl_append, List.foldl_cons, List.foldl_nil]
      exact hok _ r ha
  | none =>
      refine ⟨fun x hx => (by cases hx), fun e' he => ?_⟩
      cases he
      simp only [List.foldl_append, List.foldl_cons, List.foldl_nil]
      exact herror _ ha

theorem stop {e : ε} (h : ∀ a, P a → E e a) : Triple step P (Prog.stop e : Prog C R ε α) Q E := by
  intro peer log a ha
  refine ⟨fun x hx => (by cases hx), fun e' he => ?_⟩
  cases he
  exact h _ ha

theorem check {b : Prop} [Decidable b] {e : ε} {M : A → Prop} (hok : ∀ a, P a → b → M a)
    (herror : ∀ a, P a → ¬ b → E e a) :
    Triple step P (Prog.check b e : Prog C R ε Unit) (fun _ => M) E := by
  rw [Prog.check]
  split
  · rename_i hb
    exact Triple.pure fun a ha => hok a ha hb
  · rename_i hb
    exact Triple.stop fun a ha => herror a ha hb

/-- A counting loop keeps an invariant that may speak of the count. -/
theorem upTo {n : Nat} {body : Nat → Prog C R ε Unit} {I : Nat → A → Prop}
    (h : ∀ k, k < n → Triple step (I k) (body k) (fun _ => I (k + 1)) E) :
    Triple step (I 0) (Prog.upTo n body) (fun _ => I n) E := by
  induction n with
  | zero => exact Triple.pure fun _ ha => ha
  | succ n ih =>
      exact (ih fun k hk => h k (Nat.lt_succ_of_lt hk)).seq (h n (Nat.lt_succ_self n))

/-- A loop that goes on while its body says so keeps an invariant that
may speak of the turns taken. -/
theorem repeatWhile {turns : Nat} {late : ε} {body : Prog C R ε Bool} {I : Nat → A → Prop}
    {M : A → Prop}
    (hbody : ∀ k < turns, Triple step (I k) body (fun more a => if more then I (k + 1) a else M a) E)
    (hlate : ∀ a, I turns a → E late a) :
    Triple step (I 0) (Prog.repeatWhile turns late body) (fun _ => M) E := by
  induction turns generalizing I with
  | zero => exact Triple.stop hlate
  | succ turns ih =>
      refine (hbody 0 (Nat.succ_pos turns)).bind fun more => ?_
      cases more with
      | true => exact ih (I := fun k => I (k + 1)) (fun k hk => hbody (k + 1) (by omega)) hlate
      | false => exact Triple.pure fun _ ha => ha

end Triple

/-- From one state. Straight-line programs are executed by its rules. -/
abbrev From (step : A → C × Option R → A) (a : A) (m : Prog C R ε α) (Q : α → A → Prop)
    (E : ε → A → Prop) : Prop :=
  Triple step (· = a) m Q E

theorem Triple.of_from (h : ∀ a, P a → From step a m Q E) : Triple step P m Q E :=
  fun peer log a ha => h _ ha peer log a rfl

theorem Triple.to_from (h : Triple step P m Q E) {a : A} (ha : P a) : From step a m Q E :=
  h.pre fun _ hb => hb.symm ▸ ha

namespace From

variable {a : A}

theorem pure {x : α} (h : Q x a) : From step a (Pure.pure x : Prog C R ε α) Q E :=
  Triple.pure fun _ hb => by rw [hb]; exact h

theorem bind {f : α → Prog C R ε β} {S : β → A → Prop}
    (h : From step a m (fun x b => From step b (f x) S E) E) : From step a (m >>= f) S E :=
  Triple.bind h fun _ => Triple.of_from fun _ hb => hb

theorem call {c : C} {e : ε} {Q : R → A → Prop} (hok : ∀ r, Q r (step a (c, some r)))
    (herror : E e (step a (c, none))) : From step a (Prog.call c e) Q E :=
  Triple.call (fun _ r hb => by rw [hb]; exact hok r) fun _ hb => by rw [hb]; exact herror

theorem check {b : Prop} [Decidable b] {e : ε} {Q : Unit → A → Prop} (hok : b → Q () a)
    (herror : ¬ b → E e a) : From step a (Prog.check b e : Prog C R ε Unit) Q E := by
  rw [Prog.check]
  split
  · rename_i hb
    exact From.pure (hok hb)
  · rename_i hb
    exact Triple.stop fun _ ha => by rw [ha]; exact herror hb

end From

end Triples

/-- The run of a program against a device, from the first call on. -/
def Prog.run {C R ε α : Type} (m : Prog C R ε α) (peer : Peer C R) : Except ε α × Log C R :=
  m.exec peer []

theorem Triple.run {C R ε α A : Type} {step : A → C × Option R → A} {P : A → Prop}
    {m : Prog C R ε α} {Q : α → A → Prop} {E : ε → A → Prop} (h : Triple step P m Q E)
    (peer : Peer C R) {a : A} (ha : P a) :
    (∀ x, (m.run peer).1 = .ok x → Q x ((m.run peer).2.foldl step a)) ∧
      ∀ e, (m.run peer).1 = .error e → E e ((m.run peer).2.foldl step a) :=
  h peer [] a ha

end UsbSniffer.Lib.Dialogue
