import Mathlib.Tactic

/-!
# Cyclic redundancy checks

A CRC register of `n + 1` bits that takes a list of bits, the first one
first, and what it detects. The register is linear in the bits
(`crc_xor`), and a word followed by its own CRC leaves the register at
zero (`crc_check`), so an error goes unnoticed exactly when the register
does not see the flipped bits. It sees

* every odd number of them, for a polynomial of odd weight
  (`crc_ne_of_odd`),
* every two, as long as their distance is less than the period of the
  polynomial (`crc_pair`),
* every burst no longer than the register (`crc_burst`).
-/

namespace UsbSniffer.Lib.Crc

variable {n : Nat}

/-- The register moves up one place; a one that falls out is the
polynomial `g`. -/
def shift (g c : BitVec (n + 1)) : BitVec (n + 1) :=
  if c.msb then (c <<< 1) ^^^ g else c <<< 1

/-- A bit in the highest place. -/
def top (b : Bool) : BitVec (n + 1) := if b then BitVec.twoPow (n + 1) n else 0#(n + 1)

def step (g c : BitVec (n + 1)) (b : Bool) : BitVec (n + 1) := shift g (c ^^^ top b)

/-- The register after some bits. -/
def crc (g c : BitVec (n + 1)) (bits : List Bool) : BitVec (n + 1) := bits.foldl (step g) c

/-- The bits of a word, the highest first. -/
def msbs {w : Nat} (r : BitVec w) : List Bool := (List.range w).map r.getMsbD

variable {g : BitVec (n + 1)}

@[simp] theorem crc_nil (c : BitVec (n + 1)) : crc g c [] = c := rfl

@[simp] theorem crc_cons (c : BitVec (n + 1)) (b : Bool) (bits : List Bool) :
    crc g c (b :: bits) = crc g (step g c b) bits := rfl

theorem crc_append (c : BitVec (n + 1)) (xs ys : List Bool) :
    crc g c (xs ++ ys) = crc g (crc g c xs) ys := List.foldl_append

/-! ## Linearity -/

theorem shift_xor (a b : BitVec (n + 1)) : shift g (a ^^^ b) = shift g a ^^^ shift g b := by
  simp only [shift, BitVec.msb_xor, BitVec.shiftLeft_xor_distrib]
  cases a.msb with
  | false =>
      cases b.msb with
      | false => rfl
      | true => exact BitVec.xor_assoc _ _ _
  | true =>
      cases b.msb with
      | false =>
          show a <<< 1 ^^^ b <<< 1 ^^^ g = a <<< 1 ^^^ g ^^^ b <<< 1
          ac_rfl
      | true =>
          -- the two polynomials cancel
          show a <<< 1 ^^^ b <<< 1 = a <<< 1 ^^^ g ^^^ (b <<< 1 ^^^ g)
          have hcancel : a <<< 1 ^^^ g ^^^ (b <<< 1 ^^^ g) = a <<< 1 ^^^ b <<< 1 ^^^ (g ^^^ g) := by
            ac_rfl
          rw [hcancel, BitVec.xor_self, BitVec.xor_zero]

theorem shift_zero : shift g 0#(n + 1) = 0#(n + 1) := by
  simp [shift]

theorem top_xor (a b : Bool) : (top (a ^^ b) : BitVec (n + 1)) = top a ^^^ top b := by
  cases a <;> cases b <;> simp [top]

theorem step_xor (c d : BitVec (n + 1)) (a b : Bool) :
    step g (c ^^^ d) (a ^^ b) = step g c a ^^^ step g d b := by
  rw [step, step, step, ← shift_xor, top_xor]
  congr 1
  ac_rfl

/-- **The register is linear**: errors in the bits add up in it. -/
theorem crc_xor (c d : BitVec (n + 1)) (xs ys : List Bool) (h : xs.length = ys.length) :
    crc g (c ^^^ d) (List.zipWith xor xs ys) = crc g c xs ^^^ crc g d ys := by
  induction xs generalizing c d ys with
  | nil =>
      cases ys with
      | nil => rfl
      | cons y ys => cases h
  | cons x xs ih =>
      cases ys with
      | nil => cases h
      | cons y ys =>
          rw [List.zipWith_cons_cons, crc_cons, crc_cons, crc_cons, step_xor]
          exact ih _ _ ys (Nat.succ.inj h)

theorem step_false (c : BitVec (n + 1)) : step g c false = shift g c := by
  simp [step, top]

/-- Zeros only shift. -/
theorem crc_zeros (c : BitVec (n + 1)) (k : Nat) :
    crc g c (List.replicate k false) = (shift g)^[k] c := by
  induction k generalizing c with
  | zero => rfl
  | succ k ih =>
      rw [List.replicate_succ, crc_cons, step_false, ih, Function.iterate_succ_apply]

theorem shifts_zero (k : Nat) : (shift g)^[k] 0#(n + 1) = 0#(n + 1) := by
  induction k with
  | zero => rfl
  | succ k ih => rw [Function.iterate_succ_apply, shift_zero, ih]

theorem crc_zero_zeros (k : Nat) : crc g 0#(n + 1) (List.replicate k false) = 0#(n + 1) := by
  rw [crc_zeros, shifts_zero]

/-! ## Nothing is lost -/

/-- With a constant term the shift can be undone: a one that fell out
shows in the lowest place. -/
theorem shift_eq_zero (hg : g[0] = true) {c : BitVec (n + 1)} (h : shift g c = 0#(n + 1)) :
    c = 0#(n + 1) := by
  rw [shift] at h
  split at h
  · have h0 := congrArg (·.getLsbD 0) h
    simp [hg] at h0
  · rename_i hmsb
    ext i hi
    have hi' := congrArg (·.getLsbD (i + 1)) h
    by_cases hn : i = n
    · subst hn
      rw [BitVec.msb_eq_getLsbD_last] at hmsb
      simpa [BitVec.getLsbD_eq_getElem] using hmsb
    · have hlt : i + 1 < n + 1 := by omega
      simpa [hlt, BitVec.getLsbD_eq_getElem, hi] using hi'

theorem shifts_eq_zero (hg : g[0] = true) (k : Nat) {c : BitVec (n + 1)}
    (h : (shift g)^[k] c = 0#(n + 1)) : c = 0#(n + 1) := by
  induction k generalizing c with
  | zero => exact h
  | succ k ih => exact shift_eq_zero hg (ih h)

/-! ## Words in the register -/

/-- Bits in the highest places. -/
def ofBits : List Bool → BitVec (n + 1)
  | [] => 0#(n + 1)
  | b :: bits => top b ^^^ (ofBits bits >>> 1)

theorem getMsbD_top (b : Bool) (i : Nat) :
    (top b : BitVec (n + 1)).getMsbD i = (decide (i = 0) && b) := by
  cases b with
  | false => simp [top]
  | true =>
      rw [top, if_pos rfl, BitVec.getMsbD_eq_getLsbD, BitVec.getLsbD_twoPow, Bool.and_true,
        ← Bool.decide_and, ← Bool.decide_and]
      exact decide_eq_decide.mpr (by omega)

theorem getMsbD_ofBits (bits : List Bool) (h : bits.length ≤ n + 1) (i : Nat) :
    (ofBits bits : BitVec (n + 1)).getMsbD i = bits.getD i false := by
  induction bits generalizing i with
  | nil => simp [ofBits]
  | cons b bits ih =>
      rw [List.length_cons] at h
      rw [ofBits, BitVec.getMsbD_xor, getMsbD_top, BitVec.getMsbD_ushiftRight]
      cases i with
      | zero => simp
      | succ i =>
          rw [ih (by omega)]
          by_cases hi : i + 1 < n + 1
          · simp [hi]
          · have hlen : bits.length ≤ i := by omega
            simp [hi, hlen]

theorem shift_ushiftRight (bits : List Bool) (h : bits.length ≤ n) :
    shift g (ofBits bits >>> 1) = ofBits bits := by
  have hmsb : (ofBits bits >>> 1 : BitVec (n + 1)).msb = false := by simp [BitVec.msb_ushiftRight]
  rw [shift, hmsb, if_neg Bool.false_ne_true]
  apply BitVec.eq_of_getMsbD_eq
  intro i hi
  rw [BitVec.getMsbD_shiftLeft, BitVec.getMsbD_ushiftRight]
  by_cases hlast : i = n
  · have hzero : (ofBits bits : BitVec (n + 1)).getMsbD n = false := by
      rw [getMsbD_ofBits bits (by omega)]
      simp [h]
    rw [hlast, hzero]
    simp
  · have hlt : i + 1 < n + 1 := by omega
    simp [hlt]

/-- **Bits can be taken one by one or all at once**, as long as the
register is wide enough. -/
theorem crc_ofBits (s : BitVec (n + 1)) (bits : List Bool) (h : bits.length ≤ n + 1) :
    crc g s bits = (shift g)^[bits.length] (s ^^^ ofBits bits) := by
  induction bits generalizing s with
  | nil => simp [ofBits]
  | cons b bits ih =>
      rw [List.length_cons] at h
      have hmove := shift_ushiftRight (g := g) bits (by omega)
      rw [crc_cons, ih _ (by omega), List.length_cons, Function.iterate_succ_apply, ofBits,
        ← BitVec.xor_assoc, shift_xor, hmove, step]

theorem ofBits_msbs (r : BitVec (n + 1)) : ofBits (msbs r) = r := by
  apply BitVec.eq_of_getMsbD_eq
  intro i hi
  rw [getMsbD_ofBits _ (by simp [msbs])]
  simp [msbs, hi]

theorem ofBits_eq_zero {bits : List Bool} (h : bits.length ≤ n + 1)
    (h0 : (ofBits bits : BitVec (n + 1)) = 0#(n + 1)) : ∀ b ∈ bits, b = false := by
  intro b hb
  obtain ⟨i, hi, rfl⟩ := List.mem_iff_getElem.mp hb
  have hget := getMsbD_ofBits bits h i
  rw [h0] at hget
  simpa [hi] using hget.symm

/-- **A word and its CRC**: behind both the register is at zero. -/
theorem crc_check (hg : g[0] = true) (c r : BitVec (n + 1)) (bits : List Bool) :
    crc g c (bits ++ msbs r) = 0#(n + 1) ↔ crc g c bits = r := by
  rw [crc_append, crc_ofBits _ _ (by simp [msbs]), ofBits_msbs]
  constructor
  · intro h
    exact BitVec.xor_eq_zero_iff.mp (shifts_eq_zero hg _ h)
  · intro h
    rw [h, BitVec.xor_self, shifts_zero]

/-! ## Bursts -/

/-- **A burst no longer than the register is seen.** -/
theorem crc_burst (hg : g[0] = true) {a c : Nat} {burst : List Bool} (hlen : burst.length ≤ n + 1)
    (hne : true ∈ burst) :
    crc g 0#(n + 1) (List.replicate a false ++ burst ++ List.replicate c false) ≠ 0#(n + 1) := by
  intro h
  rw [crc_append, crc_append, crc_zero_zeros, crc_zeros] at h
  have hburst := shifts_eq_zero hg c h
  rw [crc_ofBits _ _ hlen, BitVec.zero_xor] at hburst
  cases ofBits_eq_zero hlen (shifts_eq_zero hg _ hburst) true hne

/-! ## Two bits -/

/-- **Two flipped bits are seen**, as long as the shift does not take a
single bit back to itself over their distance. -/
theorem crc_pair (hg : g[0] = true) {a m c : Nat}
    (hperiod : (shift g)^[m + 1] (top true) ≠ top true) :
    crc g 0#(n + 1) (List.replicate a false ++ true :: (List.replicate m false ++
      true :: List.replicate c false)) ≠ 0#(n + 1) := by
  intro h
  rw [crc_append, crc_zero_zeros, crc_cons, crc_append, crc_zeros, crc_cons,
    crc_zeros, step, step, BitVec.zero_xor] at h
  have hlast := shift_eq_zero hg (shifts_eq_zero hg c h)
  rw [← Function.iterate_succ_apply] at hlast
  exact hperiod (BitVec.xor_eq_zero_iff.mp hlast)

/-! ## Odd numbers of bits -/

/-- Whether the number of ones is odd. -/
def parity (bits : List Bool) : Bool := bits.foldr xor false

@[simp] theorem parity_cons (b : Bool) (bits : List Bool) :
    parity (b :: bits) = (b ^^ parity bits) := rfl

theorem parity_append (xs ys : List Bool) : parity (xs ++ ys) = (parity xs ^^ parity ys) := by
  induction xs with
  | nil => simp [parity]
  | cons x xs ih => rw [List.cons_append, parity_cons, parity_cons, ih, Bool.xor_assoc]

theorem parity_eq (bits : List Bool) : parity bits = decide (Odd (bits.count true)) := by
  induction bits with
  | nil => simp [parity]
  | cons b bits ih =>
      rw [parity_cons, ih]
      cases b with
      | false => simp
      | true => simp [Nat.odd_add_one, ← Nat.not_even_iff_odd]

theorem parity_zipWith (xs ys : List Bool) (h : xs.length = ys.length) :
    parity (List.zipWith xor xs ys) = (parity xs ^^ parity ys) := by
  induction xs generalizing ys with
  | nil =>
      cases ys with
      | nil => rfl
      | cons y ys => cases h
  | cons x xs ih =>
      cases ys with
      | nil => cases h
      | cons y ys =>
          rw [List.zipWith_cons_cons, parity_cons, parity_cons, parity_cons,
            ih ys (Nat.succ.inj h)]
          cases x <;> cases y <;> simp

theorem msbs_xor {w : Nat} (a b : BitVec w) :
    msbs (a ^^^ b) = List.zipWith xor (msbs a) (msbs b) := by
  simp [msbs, List.zipWith_map, List.zipWith_self]

theorem msbs_append {v w : Nat} (a : BitVec v) (b : BitVec w) :
    msbs (a ++ b) = msbs a ++ msbs b := by
  rw [msbs, List.range_add, List.map_append, List.map_map]
  congr 1
  · apply List.map_congr_left
    intro i hi
    rw [List.mem_range] at hi
    rw [BitVec.getMsbD_append, if_neg (by omega)]
  · apply List.map_congr_left
    intro i hi
    rw [Function.comp_apply, BitVec.getMsbD_append, if_pos (by omega), Nat.add_sub_cancel_left]

/-- The highest bit falls out, and a zero comes in. -/
theorem msbs_shiftLeft (c : BitVec (n + 1)) :
    c.msb :: msbs (c <<< 1) = msbs c ++ [false] := by
  have hshift : msbs (c <<< 1) = (List.range n).map (fun i => c.getMsbD (i + 1)) ++ [false] := by
    rw [msbs, List.range_succ, List.map_append]
    simp [BitVec.getMsbD_shiftLeft]
  have hbits : msbs c = c.msb :: (List.range n).map (fun i => c.getMsbD (i + 1)) := by
    rw [msbs, List.range_succ_eq_map, List.map_cons, List.map_map]
    rfl
  rw [hshift, hbits, List.cons_append]

/-- With a polynomial of odd weight (its leading one apart) the shift
keeps the parity. -/
theorem parity_shift (hg : parity (msbs g) = true) (c : BitVec (n + 1)) :
    parity (msbs (shift g c)) = parity (msbs c) := by
  have hmove := congrArg parity (msbs_shiftLeft c)
  rw [parity_cons, parity_append] at hmove
  rw [shift]
  split
  · rename_i hmsb
    rw [msbs_xor, parity_zipWith _ _ (by simp [msbs]), hg]
    rw [hmsb] at hmove
    simpa [parity] using hmove
  · rename_i hmsb
    rw [Bool.not_eq_true] at hmsb
    rw [hmsb] at hmove
    simpa [parity] using hmove

theorem parity_top (b : Bool) : parity (msbs (top b : BitVec (n + 1))) = b := by
  have hbits : msbs (top b : BitVec (n + 1)) = b :: List.replicate n false := by
    have hrest : (List.range n).map ((top b : BitVec (n + 1)).getMsbD ∘ Nat.succ) =
        List.replicate n false := by
      rw [List.eq_replicate_iff]
      simp [getMsbD_top]
    rw [msbs, List.range_succ_eq_map, List.map_cons, List.map_map, getMsbD_top, hrest]
    simp
  have hzeros : parity (List.replicate n false) = false := by
    rw [parity_eq, List.count_replicate]
    simp
  rw [hbits, parity_cons, hzeros, Bool.xor_false]

/-- **The register has the parity of what it was fed.** -/
theorem parity_crc (hg : parity (msbs g) = true) (c : BitVec (n + 1)) (bits : List Bool) :
    parity (msbs (crc g c bits)) = (parity (msbs c) ^^ parity bits) := by
  induction bits generalizing c with
  | nil => simp [parity]
  | cons b bits ih =>
      rw [crc_cons, ih, step, parity_shift hg, msbs_xor, parity_zipWith _ _ (by simp [msbs]),
        parity_top, parity_cons, Bool.xor_assoc]

/-- **An odd number of flipped bits is seen.** -/
theorem crc_ne_of_odd (hg : parity (msbs g) = true) {bits : List Bool}
    (hodd : Odd (bits.count true)) : crc g 0#(n + 1) bits ≠ 0#(n + 1) := by
  intro h
  have hp := parity_crc hg 0#(n + 1) bits
  have hzero : parity (msbs 0#(n + 1)) = false := parity_top (n := n) false
  rw [h, hzero, Bool.false_xor, parity_eq] at hp
  simp [hodd] at hp

end UsbSniffer.Lib.Crc
