import Mathlib.Tactic

/-!
# A JTAG test access port

The sixteen states of the controller of IEEE 1149.1, clocked by pairs of
`tdi` and `tms`, with the bits that have been shifted since the last
capture and the registers that have been updated.

The two scans a host is made of are paths through this machine:
`run_drScan` and `run_irScan` take it from Run-Test/Idle back there and
update one register with the bits in the order they were clocked, the
lowest first.
-/

namespace UsbSniffer.Lib.Tap

/-- The controller. -/
inductive State where
  | testLogicReset
  | runTestIdle
  | selectDr
  | captureDr
  | shiftDr
  | exit1Dr
  | pauseDr
  | exit2Dr
  | updateDr
  | selectIr
  | captureIr
  | shiftIr
  | exit1Ir
  | pauseIr
  | exit2Ir
  | updateIr
deriving Repr, DecidableEq

/-- One clock: the data and the mode bit. -/
structure Sym where
  tdi : Bool
  tms : Bool
deriving Repr, DecidableEq

/-- Where a clock leads. -/
def State.next : State → Bool → State
  | .testLogicReset, tms => if tms then .testLogicReset else .runTestIdle
  | .runTestIdle, tms => if tms then .selectDr else .runTestIdle
  | .selectDr, tms => if tms then .selectIr else .captureDr
  | .captureDr, tms => if tms then .exit1Dr else .shiftDr
  | .shiftDr, tms => if tms then .exit1Dr else .shiftDr
  | .exit1Dr, tms => if tms then .updateDr else .pauseDr
  | .pauseDr, tms => if tms then .exit2Dr else .pauseDr
  | .exit2Dr, tms => if tms then .updateDr else .shiftDr
  | .updateDr, tms => if tms then .selectDr else .runTestIdle
  | .selectIr, tms => if tms then .testLogicReset else .captureIr
  | .captureIr, tms => if tms then .exit1Ir else .shiftIr
  | .shiftIr, tms => if tms then .exit1Ir else .shiftIr
  | .exit1Ir, tms => if tms then .updateIr else .pauseIr
  | .pauseIr, tms => if tms then .exit2Ir else .pauseIr
  | .exit2Ir, tms => if tms then .updateIr else .shiftIr
  | .updateIr, tms => if tms then .selectDr else .runTestIdle

/-- A register that has been updated, with the bits shifted into it, the
first one first. -/
inductive Update where
  | ir (bits : List Bool)
  | dr (bits : List Bool)
deriving Repr, DecidableEq

/-- The port: the controller, the bits shifted since the last capture,
and the updates so far. -/
structure Port where
  state : State
  shifted : List Bool
  updates : List Update
deriving Repr, DecidableEq

/-- What a clock in a state does to the shift register. -/
def shiftIn (state : State) (shifted : List Bool) (tdi : Bool) : List Bool :=
  match state with
  | .captureDr | .captureIr => []
  | .shiftDr | .shiftIr => shifted ++ [tdi]
  | _ => shifted

/-- What entering a state updates. -/
def latch (state : State) (shifted : List Bool) : List Update :=
  match state with
  | .updateDr => [.dr shifted]
  | .updateIr => [.ir shifted]
  | _ => []

def clock (p : Port) (s : Sym) : Port :=
  let shifted := shiftIn p.state p.shifted s.tdi
  let state := p.state.next s.tms
  { state, shifted, updates := p.updates ++ latch state shifted }

/-- Some clocks one after another. -/
def run (p : Port) (syms : List Sym) : Port := syms.foldl clock p

@[simp] theorem run_nil (p : Port) : run p [] = p := rfl

@[simp] theorem run_cons (p : Port) (s : Sym) (syms : List Sym) :
    run p (s :: syms) = run (clock p s) syms := rfl

theorem run_append (p : Port) (xs ys : List Sym) : run p (xs ++ ys) = run (run p xs) ys :=
  List.foldl_append

/-- Bits to shift, the mode bit on the last one. -/
def shiftSyms : List Bool → List Sym
  | [] => []
  | [b] => [⟨b, true⟩]
  | b :: bits => ⟨b, false⟩ :: shiftSyms bits

/-- A data register scan from Run-Test/Idle and back. -/
def drScan (bits : List Bool) : List Sym :=
  [⟨false, true⟩, ⟨false, false⟩, ⟨false, false⟩] ++ shiftSyms bits ++ [⟨false, true⟩, ⟨false, false⟩]

/-- An instruction register scan. -/
def irScan (bits : List Bool) : List Sym :=
  [⟨false, true⟩, ⟨false, true⟩, ⟨false, false⟩, ⟨false, false⟩] ++ shiftSyms bits ++
    [⟨false, true⟩, ⟨false, false⟩]

theorem shiftSyms_cons {bits : List Bool} (h : bits ≠ []) (b : Bool) :
    shiftSyms (b :: bits) = ⟨b, false⟩ :: shiftSyms bits := by
  cases bits with
  | nil => exact absurd rfl h
  | cons c bits => rfl

theorem shiftSyms_length (bits : List Bool) : (shiftSyms bits).length = bits.length := by
  induction bits with
  | nil => rfl
  | cons b bits ih =>
      cases bits with
      | nil => rfl
      | cons c bits =>
          rw [shiftSyms_cons (List.cons_ne_nil _ _), List.length_cons, ih]
          rfl

/-- The mode bit is on the last one. -/
theorem shiftSyms_concat (bits : List Bool) (b : Bool) :
    shiftSyms (bits ++ [b]) = bits.map (⟨·, false⟩) ++ [⟨b, true⟩] := by
  induction bits with
  | nil => rfl
  | cons c bits ih =>
      rw [List.cons_append, shiftSyms_cons (List.append_ne_nil_of_right_ne_nil _ (by simp)), ih]
      rfl

/-- Bits shifted by a loop that sets the mode bit in its last turn. -/
theorem shiftSyms_range (n : Nat) (bit : Nat → Bool) :
    (List.range n).map (fun i => (⟨bit i, decide (i = n - 1)⟩ : Sym)) =
      shiftSyms ((List.range n).map bit) := by
  cases n with
  | zero => rfl
  | succ n =>
      rw [List.range_succ, List.map_append, List.map_append]
      simp only [List.map_cons, List.map_nil, shiftSyms_concat, Nat.add_sub_cancel, decide_true,
        List.map_map]
      congr 1
      apply List.map_congr_left
      intro i hi
      have hne : i ≠ n := Nat.ne_of_lt (List.mem_range.mp hi)
      simp [hne]

/-- Shifting ends behind the last bit, in either register: every clock of
the shift state takes one bit in, and the mode bit of the last one leaves. -/
theorem run_shift {shift exit : State} {updates : List Update}
    (hclock : ∀ shifted b tms, clock ⟨shift, shifted, updates⟩ ⟨b, tms⟩ =
      ⟨if tms then exit else shift, shifted ++ [b], updates⟩)
    {bits : List Bool} (h : bits ≠ []) (shifted : List Bool) :
    run ⟨shift, shifted, updates⟩ (shiftSyms bits) = ⟨exit, shifted ++ bits, updates⟩ := by
  induction bits generalizing shifted with
  | nil => exact absurd rfl h
  | cons b bits ih =>
      cases bits with
      | nil => exact hclock shifted b true
      | cons c bits =>
          have hstay : clock ⟨shift, shifted, updates⟩ ⟨b, false⟩ =
              ⟨shift, shifted ++ [b], updates⟩ := hclock shifted b false
          rw [shiftSyms_cons (List.cons_ne_nil _ _), run_cons, hstay, ih (List.cons_ne_nil _ _),
            List.append_assoc, List.singleton_append]

theorem clock_shiftDr (updates : List Update) (shifted : List Bool) (b tms : Bool) :
    clock ⟨.shiftDr, shifted, updates⟩ ⟨b, tms⟩ =
      ⟨if tms then .exit1Dr else .shiftDr, shifted ++ [b], updates⟩ := by
  cases tms <;> simp [clock, shiftIn, latch, State.next]

theorem clock_shiftIr (updates : List Update) (shifted : List Bool) (b tms : Bool) :
    clock ⟨.shiftIr, shifted, updates⟩ ⟨b, tms⟩ =
      ⟨if tms then .exit1Ir else .shiftIr, shifted ++ [b], updates⟩ := by
  cases tms <;> simp [clock, shiftIn, latch, State.next]

/-- **A data register scan** updates the data register with its bits. -/
theorem run_drScan {bits : List Bool} (h : bits ≠ []) (shifted : List Bool)
    (updates : List Update) :
    run ⟨.runTestIdle, shifted, updates⟩ (drScan bits) =
      ⟨.runTestIdle, bits, updates ++ [.dr bits]⟩ := by
  have hin : run ⟨.runTestIdle, shifted, updates⟩ [⟨false, true⟩, ⟨false, false⟩, ⟨false, false⟩] =
      ⟨.shiftDr, [], updates⟩ := by
    simp [clock, shiftIn, latch, State.next]
  have hout : run ⟨.exit1Dr, bits, updates⟩ [⟨false, true⟩, ⟨false, false⟩] =
      ⟨.runTestIdle, bits, updates ++ [.dr bits]⟩ := by
    simp [clock, shiftIn, latch, State.next]
  rw [drScan, run_append, run_append, hin, run_shift (clock_shiftDr updates) h, List.nil_append, hout]

/-- **An instruction register scan** updates the instruction register. -/
theorem run_irScan {bits : List Bool} (h : bits ≠ []) (shifted : List Bool)
    (updates : List Update) :
    run ⟨.runTestIdle, shifted, updates⟩ (irScan bits) =
      ⟨.runTestIdle, bits, updates ++ [.ir bits]⟩ := by
  have hin : run ⟨.runTestIdle, shifted, updates⟩
      [⟨false, true⟩, ⟨false, true⟩, ⟨false, false⟩, ⟨false, false⟩] = ⟨.shiftIr, [], updates⟩ := by
    simp [clock, shiftIn, latch, State.next]
  have hout : run ⟨.exit1Ir, bits, updates⟩ [⟨false, true⟩, ⟨false, false⟩] =
      ⟨.runTestIdle, bits, updates ++ [.ir bits]⟩ := by
    simp [clock, shiftIn, latch, State.next]
  rw [irScan, run_append, run_append, hin, run_shift (clock_shiftIr updates) h, List.nil_append, hout]

/-- Idling stays there. -/
theorem run_idle (n : Nat) (shifted : List Bool) (updates : List Update) :
    run ⟨.runTestIdle, shifted, updates⟩ (List.replicate n ⟨false, false⟩) =
      ⟨.runTestIdle, shifted, updates⟩ := by
  induction n with
  | zero => rfl
  | succ n ih =>
      have hclock : clock ⟨.runTestIdle, shifted, updates⟩ ⟨false, false⟩ =
          ⟨.runTestIdle, shifted, updates⟩ := by
        simp [clock, shiftIn, latch, State.next]
      rw [List.replicate_succ, run_cons, hclock, ih]

end UsbSniffer.Lib.Tap
