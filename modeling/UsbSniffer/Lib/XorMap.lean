import Mathlib.Dynamics.PeriodicPts.Lemmas
import Mathlib.Data.Nat.Prime.Basic
import Mathlib.Tactic

/-!
# Linear maps on words, and their periods

A map on words that respects `^^^` is determined by what it makes of the
single bits: a table of `w` words. Tables compose, so a long iterate is
the table of a power, which squaring gives in a few steps
(`Linear.iterate_eq_power`). The period of a word is then a matter of evaluating
a few powers: `minimalPeriod_eq_of_primes` needs one for the period and
one for each of its prime divisors.
-/

namespace UsbSniffer.Lib.XorMap

variable {w : Nat}

/-- The words of a table selected by the bits of `x`, from bit `i` on. -/
def applyFrom : List (BitVec w) → Nat → BitVec w → BitVec w
  | [], _, _ => 0#w
  | c :: cs, i, x => (if x.getLsbD i then c else 0#w) ^^^ applyFrom cs (i + 1) x

def apply (table : List (BitVec w)) (x : BitVec w) : BitVec w := applyFrom table 0 x

/-- The single bits from `i` on. -/
def bitsFrom (w n i : Nat) : List (BitVec w) := (List.range' i n).map (BitVec.twoPow w)

/-- The table of a map. -/
def table (f : BitVec w → BitVec w) : List (BitVec w) := (bitsFrom w w 0).map f

/-- A map that respects `^^^`. -/
structure Linear (f : BitVec w → BitVec w) : Prop where
  zero : f 0#w = 0#w
  xor : ∀ x y, f (x ^^^ y) = f x ^^^ f y

namespace Linear

theorem comp {f g : BitVec w → BitVec w} (hf : Linear f) (hg : Linear g) : Linear (f ∘ g) where
  zero := by rw [Function.comp_apply, hg.zero, hf.zero]
  xor x y := by simp only [Function.comp_apply, hg.xor, hf.xor]

/-- `x ^= x << k`. -/
theorem xorShiftLeft (k : Nat) : Linear (fun x : BitVec w => x ^^^ (x <<< k)) where
  zero := by simp
  xor x y := by
    rw [BitVec.shiftLeft_xor_distrib]
    ac_rfl

/-- `x ^= x >> k`. -/
theorem xorShiftRight (k : Nat) : Linear (fun x : BitVec w => x ^^^ (x >>> k)) where
  zero := by simp
  xor x y := by
    rw [BitVec.ushiftRight_xor_distrib]
    ac_rfl

end Linear

theorem applyFrom_zero (cs : List (BitVec w)) (i : Nat) : applyFrom cs i 0#w = 0#w := by
  induction cs generalizing i with
  | nil => rfl
  | cons c cs ih =>
      rw [applyFrom, ih, BitVec.getLsbD_zero, if_neg Bool.false_ne_true, BitVec.xor_self]

theorem applyFrom_xor (cs : List (BitVec w)) (i : Nat) (x y : BitVec w) :
    applyFrom cs i (x ^^^ y) = applyFrom cs i x ^^^ applyFrom cs i y := by
  induction cs generalizing i with
  | nil => exact (BitVec.xor_self).symm
  | cons c cs ih =>
      have hbit : (if (x ^^^ y).getLsbD i then c else 0#w) =
          (if x.getLsbD i then c else 0#w) ^^^ (if y.getLsbD i then c else 0#w) := by
        rw [BitVec.getLsbD_xor]
        cases x.getLsbD i <;> cases y.getLsbD i <;> simp
      rw [applyFrom, applyFrom, applyFrom, ih, hbit]
      ac_rfl

/-- **Tables are linear.** -/
theorem linear_apply (cs : List (BitVec w)) : Linear (apply cs) :=
  ⟨applyFrom_zero cs 0, applyFrom_xor cs 0⟩

/-- A linear map goes through a table. -/
theorem Linear.applyFrom {f : BitVec w → BitVec w} (hf : Linear f) (cs : List (BitVec w)) (i : Nat)
    (x : BitVec w) : f (applyFrom cs i x) = XorMap.applyFrom (cs.map f) i x := by
  induction cs generalizing i with
  | nil => exact hf.zero
  | cons c cs ih =>
      rw [XorMap.applyFrom, List.map_cons, XorMap.applyFrom, hf.xor, ih]
      congr 1
      split
      · rfl
      · exact hf.zero

/-- The bits of a word, put together again. -/
theorem getLsbD_applyFrom_bits (n i : Nat) (x : BitVec w) (j : Nat) :
    (applyFrom (bitsFrom w n i) i x).getLsbD j = (decide (i ≤ j ∧ j < i + n) && x.getLsbD j) := by
  induction n generalizing i with
  | zero =>
      rw [show bitsFrom w 0 i = [] from rfl, applyFrom, BitVec.getLsbD_zero]
      simp
  | succ n ih =>
      rw [show bitsFrom w (n + 1) i = BitVec.twoPow w i :: bitsFrom w n (i + 1) from rfl, applyFrom,
        BitVec.getLsbD_xor, ih]
      have hlast : i = j → decide (i + 1 ≤ j ∧ j < i + 1 + n) = false := by
        intro hij
        simp only [decide_eq_false_iff_not]
        omega
      by_cases hij : i = j
      · subst hij
        rw [hlast rfl, Bool.false_and, Bool.xor_false]
        cases hx : x.getLsbD i with
        | false => simp
        | true =>
            have hlt : i < w := BitVec.lt_of_getLsbD hx
            simp [hlt]
      · have hbit : (if x.getLsbD i then BitVec.twoPow w i else 0#w).getLsbD j = false := by
          split
          · simp [BitVec.getLsbD_twoPow, hij]
          · exact BitVec.getLsbD_zero
        have hrange : (i + 1 ≤ j ∧ j < i + 1 + n) ↔ (i ≤ j ∧ j < i + (n + 1)) := by omega
        rw [hbit, Bool.false_xor, decide_eq_decide.mpr hrange]

/-- **A linear map is its table.** -/
theorem Linear.eq_apply {f : BitVec w → BitVec w} (hf : Linear f) (x : BitVec w) :
    f x = apply (table f) x := by
  have hid : XorMap.applyFrom (bitsFrom w w 0) 0 x = x := by
    refine BitVec.eq_of_getLsbD_eq fun j hj => ?_
    rw [getLsbD_applyFrom_bits]
    simp [hj]
  rw [apply, table, ← hf.applyFrom, hid]

/-- The table of the square. -/
def square (cs : List (BitVec w)) : List (BitVec w) := cs.map (apply cs)

theorem apply_square (cs : List (BitVec w)) (x : BitVec w) :
    apply (square cs) x = apply cs (apply cs x) :=
  ((linear_apply cs).applyFrom cs 0 x).symm

/-- Some turns, along the binary digits of their number, the lowest
first: the square for each digit, and one turn more for a one. -/
def power (cs : List (BitVec w)) : List Bool → BitVec w → BitVec w
  | [], x => x
  | b :: bs, x => power (square cs) bs (if b then apply cs x else x)

/-- The number with these digits, the lowest first. -/
def ofBits : List Bool → Nat
  | [] => 0
  | b :: bs => (if b then 1 else 0) + 2 * ofBits bs

/-- **Long iterates**, digit by digit. -/
theorem power_eq_iterate (cs : List (BitVec w)) (bs : List Bool) (x : BitVec w) :
    power cs bs x = (apply cs)^[ofBits bs] x := by
  induction bs generalizing cs x with
  | nil => rfl
  | cons b bs ih =>
      have hsquare : ∀ (n : Nat) y, (apply (square cs))^[n] y = (apply cs)^[2 * n] y := by
        intro n
        induction n with
        | zero => exact fun _ => rfl
        | succ n ihn =>
            intro y
            rw [Function.iterate_succ_apply, ihn, apply_square, Nat.mul_succ, Function.iterate_add_apply]
            rfl
      rw [power, ih, hsquare, ofBits]
      cases b with
      | false => rw [if_neg Bool.false_ne_true, if_neg Bool.false_ne_true, Nat.zero_add]
      | true => rw [if_pos rfl, if_pos rfl, Nat.add_comm, Function.iterate_succ_apply]

theorem Linear.iterate_eq_power {f : BitVec w → BitVec w} (hf : Linear f) (bs : List Bool)
    (x : BitVec w) : f^[ofBits bs] x = power (table f) bs x := by
  have hfun : f = apply (table f) := funext hf.eq_apply
  rw [power_eq_iterate, ← hfun]

/-! ## Periods -/

/-- **The period of a point**, from the prime divisors of a candidate. -/
theorem minimalPeriod_eq_of_primes {α : Type} {f : α → α} {x : α} {n : Nat}
    (hn : f^[n] x = x) (hp : ∀ p, p.Prime → p ∣ n → f^[n / p] x ≠ x) :
    Function.minimalPeriod f x = n := by
  obtain ⟨k, hk⟩ := (show Function.IsPeriodicPt f n x from hn).minimalPeriod_dvd
  by_cases hone : k = 1
  · rw [hk, hone, Nat.mul_one]
  · exfalso
    obtain ⟨p, hprime, q, hq⟩ := Nat.exists_prime_and_dvd hone
    have hdvd : p ∣ n := ⟨Function.minimalPeriod f x * q, by rw [hk, hq]; ac_rfl⟩
    have hdiv : n / p = Function.minimalPeriod f x * q := by
      refine Nat.div_eq_of_eq_mul_right hprime.pos ?_
      rw [hk, hq]
      ac_rfl
    refine hp p hprime hdvd ?_
    rw [hdiv]
    exact (Function.isPeriodicPt_minimalPeriod f x).mul_const q

end UsbSniffer.Lib.XorMap
