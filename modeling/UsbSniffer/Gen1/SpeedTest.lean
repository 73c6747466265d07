import UsbSniffer.Gen1.Usb
import UsbSniffer.Lib.XorMap

/-!
# The speed test of gen1

With `g_speed_test` the callback compares what comes in with `os_rand16`,
half word by half word, and ends the program at the first difference. The
generator is linear over the bits and runs through all 65535 words but
zero (`minimalPeriod_osRand16`), so a piece of the stream that is lost
shows at once, unless its length is a multiple of that
(`speedTest_verdict`).
-/

namespace UsbSniffer.Gen1.SpeedTest

open Lib.XorMap

/-! ## The generator -/

/-- `os_rand16(0)` on the state it keeps. -/
def osRand16 (state : UInt16) : UInt16 :=
  let state := state ^^^ (state <<< 7)
  let state := state ^^^ (state >>> 9)
  state ^^^ (state <<< 8)

/-- The state before the first call. -/
def seed : UInt16 := 0x6c41

/-- The same on the bits. -/
def xorshift (x : BitVec 16) : BitVec 16 :=
  let x := x ^^^ (x <<< 7)
  let x := x ^^^ (x >>> 9)
  x ^^^ (x <<< 8)

theorem toBitVec_osRand16 (x : UInt16) : (osRand16 x).toBitVec = xorshift x.toBitVec := rfl

theorem linear_xorshift : Linear xorshift :=
  (Linear.xorShiftLeft 8).comp ((Linear.xorShiftRight 9).comp (Linear.xorShiftLeft 7))

theorem toBitVec_iterate (n : Nat) (x : UInt16) :
    (osRand16^[n] x).toBitVec = xorshift^[n] x.toBitVec := by
  induction n generalizing x with
  | zero => rfl
  | succ n ih => rw [Function.iterate_succ_apply, ih, toBitVec_osRand16, Function.iterate_succ_apply]

/-- The binary digits of a number, the lowest first. -/
def digits : Nat → Nat → List Bool
  | 0, _ => []
  | k + 1, n => (n % 2 == 1) :: digits k (n / 2)

/-- **The generator has the full period.** -/
theorem minimalPeriod_osRand16 : Function.minimalPeriod osRand16 seed = 65535 := by
  have hpower : ∀ bs, osRand16^[ofBits bs] seed = seed ↔
      power (table xorshift) bs seed.toBitVec = seed.toBitVec := by
    intro bs
    rw [← UInt16.toBitVec_inj, toBitVec_iterate, linear_xorshift.iterate_eq_power]
  refine minimalPeriod_eq_of_primes ?_ fun p hp hdvd => ?_
  · exact (hpower (digits 16 65535)).mpr (by decide +kernel)
  · have hcases : p = 3 ∨ p = 5 ∨ p = 17 ∨ p = 257 := by
      have hfactors : (65535 : Nat) = 3 * 5 * 17 * 257 := by norm_num
      have hone : ∀ q, q.Prime → p ∣ q → p = q := fun q hq h =>
        (Nat.prime_dvd_prime_iff_eq hp hq).mp h
      rw [hfactors, hp.dvd_mul, hp.dvd_mul, hp.dvd_mul] at hdvd
      rcases hdvd with ((h | h) | h) | h
      · exact Or.inl (hone 3 (by norm_num) h)
      · exact Or.inr (Or.inl (hone 5 (by norm_num) h))
      · exact Or.inr (Or.inr (Or.inl (hone 17 (by norm_num) h)))
      · exact Or.inr (Or.inr (Or.inr (hone 257 (by norm_num) h)))
    rcases hcases with rfl | rfl | rfl | rfl
    · exact fun h => absurd ((hpower (digits 16 21845)).mp h) (by decide +kernel)
    · exact fun h => absurd ((hpower (digits 16 13107)).mp h) (by decide +kernel)
    · exact fun h => absurd ((hpower (digits 16 3855)).mp h) (by decide +kernel)
    · exact fun h => absurd ((hpower (digits 16 255)).mp h) (by decide +kernel)

/-- The words of the test: the answer of call `n` of `os_rand16`. -/
def stream (n : Nat) : UInt16 := osRand16^[n + 1] seed

/-- **Words of the stream differ** unless they are a period apart. -/
theorem stream_eq_iff (n d : Nat) : stream (n + d) = stream n ↔ 65535 ∣ d := by
  have hperiodic : seed ∈ Function.periodicPts osRand16 := by
    rw [← Function.minimalPeriod_pos_iff_mem_periodicPts, minimalPeriod_osRand16]
    norm_num
  have hshift : stream (n + d) = osRand16^[d] (stream n) := by
    rw [stream, stream, ← Function.iterate_add_apply]
    congr 1
    omega
  have hperiod : Function.minimalPeriod osRand16 (stream n) = 65535 := by
    rw [stream, Function.minimalPeriod_apply_iterate hperiodic, minimalPeriod_osRand16]
  rw [hshift, ← hperiod]
  exact Function.isPeriodicPt_iff_minimalPeriod_dvd

/-! ## The callback -/

/-- The state of `os_rand16`, `g_speed_test_count` with the index in the
buffer, and the count `os_check` failed at. -/
structure Test where
  rand : UInt16
  count : Nat
  failedAt : Option Nat
  deriving DecidableEq, Repr

def Test.initial : Test := ⟨seed, 0, none⟩

/-- `(u16 *)transfer->buffer`, without an odd byte at the end. -/
def halves : List UInt8 → List UInt16
  | a :: b :: rest => (a.toUInt16 ||| (b.toUInt16 <<< 8)) :: halves rest
  | _ => []

/-- One turn of the loop. -/
def check (t : Test) (word : UInt16) : Except Test Test :=
  let rand := osRand16 t.rand
  if word = rand then .ok { t with rand := rand, count := t.count + 1 }
  else .error { t with rand := rand, failedAt := some t.count }

/-- The branch of `usb_capture_callback` for `g_speed_test`. -/
def take (t : Test) (data : List UInt8) : Except Test Test := (halves data).foldlM check t

/-- The first word that is not the one of the stream, from `n` on. -/
def firstDiff : Nat → List UInt16 → Option Nat
  | _, [] => none
  | n, w :: ws => if w = stream n then firstDiff (n + 1) ws else some n

theorem foldlM_take (t : Test) (chunks : List (List UInt8)) :
    chunks.foldlM take t = (chunks.flatMap halves).foldlM check t := by
  induction chunks generalizing t with
  | nil => rfl
  | cons chunk chunks ih =>
      rw [List.foldlM_cons, List.flatMap_cons, List.foldlM_append, take]
      cases (halves chunk).foldlM check t with
      | error e => rfl
      | ok t' => exact ih t'

/-- The loop finds the first difference. -/
theorem failedAt_check (n : Nat) (words : List UInt16) {t : Test} (hrand : t.rand = osRand16^[n] seed)
    (hcount : t.count = n) (hok : t.failedAt = none) :
    (Usb.final (words.foldlM check t)).failedAt = firstDiff n words := by
  induction words generalizing n t with
  | nil => exact hok
  | cons w ws ih =>
      have hnext : osRand16 t.rand = stream n := by
        rw [hrand, stream, Function.iterate_succ_apply']
      rw [List.foldlM_cons, check, firstDiff, hnext]
      split
      · exact ih (n + 1) rfl (congrArg (· + 1) hcount) hok
      · exact congrArg some hcount

/-- A piece of the stream. -/
def streamFrom (n len : Nat) : List UInt16 := (List.range' n len).map stream

theorem streamFrom_succ (n len : Nat) :
    streamFrom n (len + 1) = stream n :: streamFrom (n + 1) len := rfl

theorem firstDiff_streamFrom (n len : Nat) (words : List UInt16) :
    firstDiff n (streamFrom n len ++ words) = firstDiff (n + len) words := by
  induction len generalizing n with
  | zero => rfl
  | succ len ih =>
      rw [streamFrom_succ, List.cons_append, firstDiff, if_pos rfl, ih]
      congr 1
      omega

theorem firstDiff_eq_none (n : Nat) (words : List UInt16) :
    firstDiff n words = none ↔ words = streamFrom n words.length := by
  induction words generalizing n with
  | nil => exact ⟨fun _ => rfl, fun _ => rfl⟩
  | cons w ws ih =>
      rw [List.length_cons, streamFrom_succ, List.cons_eq_cons, ← ih (n + 1), firstDiff]
      by_cases hw : w = stream n
      · rw [if_pos hw]
        exact ⟨fun h => ⟨hw, h⟩, fun h => h.2⟩
      · rw [if_neg hw]
        exact ⟨fun h => (by cases h), fun h => absurd h.1 hw⟩

theorem firstDiff_eq_some {n j : Nat} {words : List UInt16} (h : firstDiff n words = some j) :
    ∃ k w rest, j = n + k ∧ words = streamFrom n k ++ w :: rest ∧ w ≠ stream j := by
  induction words generalizing n with
  | nil => cases h
  | cons w ws ih =>
      rw [firstDiff] at h
      split at h
      · rename_i hw
        obtain ⟨k, w', rest, hj, hws, hne⟩ := ih h
        refine ⟨k + 1, w', rest, by omega, ?_, hne⟩
        rw [streamFrom_succ, hws, hw, List.cons_append]
      · rename_i hw
        cases h
        exact ⟨0, w, ws, rfl, rfl, hw⟩

/-- **The verdict.** In any trace of events the test has compared all
half words that were delivered, each buffer for itself. It goes on as
long as they are the stream of `os_rand16`, and fails at the first one
that is not. Where a piece of the stream was lost it fails at the loss,
unless the piece is a multiple of 65535 half words long. -/
theorem speedTest_verdict {es : List Usb.Event} {s : Usb.Session Test}
    (hrun : Usb.run take (Usb.start Test.initial) es = some s) :
    let words := (Usb.delivered es).flatMap halves
    (s.consumer.failedAt = none ↔ words = streamFrom 0 words.length) ∧
      (∀ k, s.consumer.failedAt = some k ↔
        ∃ w rest, words = streamFrom 0 k ++ w :: rest ∧ w ≠ stream k) ∧
      ∀ before lost after, 0 < after → words = streamFrom 0 before ++ streamFrom (before + lost) after →
        (s.consumer.failedAt = some before ∧ ¬ 65535 ∣ lost) ∨
          (s.consumer.failedAt = none ∧ 65535 ∣ lost) := by
  intro words
  have hfailed : s.consumer.failedAt = firstDiff 0 words := by
    rw [(Usb.run_spec rfl rfl hrun).1, foldlM_take]
    exact failedAt_check 0 words rfl rfl rfl
  rw [hfailed]
  refine ⟨firstDiff_eq_none 0 words, fun k => ⟨fun h => ?_, ?_⟩, ?_⟩
  · obtain ⟨k', w, rest, rfl, hwords, hne⟩ := firstDiff_eq_some h
    rw [Nat.zero_add] at hne ⊢
    exact ⟨w, rest, hwords, hne⟩
  · rintro ⟨w, rest, hwords, hne⟩
    rw [hwords, firstDiff_streamFrom, Nat.zero_add, firstDiff, if_neg hne]
  · intro before lost after hpos hwords
    rw [hwords, firstDiff_streamFrom, Nat.zero_add]
    obtain ⟨m, rfl⟩ : ∃ m, after = m + 1 := ⟨after - 1, by omega⟩
    by_cases hdvd : 65535 ∣ lost
    · refine Or.inr ⟨?_, hdvd⟩
      have hsame : streamFrom (before + lost) (m + 1) = streamFrom before (m + 1) := by
        rw [streamFrom, streamFrom, List.range'_eq_map_range, List.range'_eq_map_range (s := before),
          List.map_map, List.map_map]
        refine List.map_congr_left fun i _ => ?_
        show stream (before + lost + i) = stream (before + i)
        rw [Nat.add_right_comm, stream_eq_iff]
        exact hdvd
      have hlen : (streamFrom before (m + 1)).length = m + 1 := by
        rw [streamFrom, List.length_map, List.length_range']
      rw [hsame, firstDiff_eq_none, hlen]
    · refine Or.inl ⟨?_, hdvd⟩
      rw [streamFrom_succ, firstDiff, if_neg fun h => hdvd ((stream_eq_iff before lost).mp h)]

/-- The first half words are lost. -/
theorem speedTest_verdict_lost :
    ∃ s, Usb.run take (Usb.start Test.initial)
        [.callback 2 .completed [(stream 3).toUInt8, ((stream 3) >>> 8).toUInt8, 7] true] = some s ∧
      s.consumer.failedAt = some 0 := by
  have hsome : (Usb.run take (Usb.start Test.initial)
      [.callback 2 .completed [(stream 3).toUInt8, ((stream 3) >>> 8).toUInt8, 7] true]).isSome =
        true := by decide +kernel
  obtain ⟨s, hs⟩ := Option.isSome_iff_exists.mp hsome
  obtain ⟨-, -, hlost⟩ := speedTest_verdict hs
  rcases hlost 0 3 1 (by decide) (by decide +kernel) with h | h
  · exact ⟨s, hs, h.1⟩
  · exact absurd h.2 (by decide)

end UsbSniffer.Gen1.SpeedTest
