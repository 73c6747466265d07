import UsbSniffer.Lib.Incremental
import UsbSniffer.Stream.Model

/-!
# The block layer as a machine over the byte sequence

What the stream layer is FOR, without buffer, offsets or chunks: a
machine that reads the byte sequence from its front. Aligned, it takes
the next sixteen bytes as a header and either takes the block off or
reports a resynchronization; scanning, it drops bytes until a legal
header stands in front. It waits exactly when the bytes it would have to
look at are not there yet, so it is incremental (`blockMachine`).

The code's buffer refines this machine in `Stream/Refine.lean`.
-/

namespace UsbSniffer.BlockLayer

open Uhsif Lib

/-- Take the block in front off, when all of it is there. -/
def acceptWhole (c : Ctl) (l : List UInt8) (n : Nat) :
    Option (Ctl × List UInt8 × List Callback) :=
  if l.length < ackSize + 4 * n then none
  else
    let tracked := c.trackSeq (blkSeq (ptrAt l 0))
    some ({ tracked.1 with state := .block }, l.drop (ackSize + 4 * n),
      tracked.2 ++ [deliver ((l.drop ackSize).take (4 * n)) n])

/-- One step of the machine; `none` waits for more bytes. -/
def parseStep (c : Ctl) (l : List UInt8) : Option (Ctl × List UInt8 × List Callback) :=
  match c.state with
  | .block =>
      if l.length < ackSize then none
      else
        match headerValid (ptrAt l 0) with
        | none => some (c.resync, l, [.rsync])
        | some n => acceptWhole c l n
  | .scan =>
      if l.length < 2 then none
      else if magicAt (ptrAt l 0) = false then some (c, l.drop 1, [])
      else if l.length < ackSize then none
      else
        match headerValid (ptrAt l 0) with
        | none => some (c, l.drop 1, [])
        | some n => acceptWhole c l n

/-! ## A header is read from sixteen bytes -/

theorem headerValid_congr {p q : Ptr} (h : ∀ i < ackSize, p i = q i) :
    headerValid p = headerValid q := by
  have hw : ∀ off, off + 4 ≤ ackSize → le32 (p.add off) = le32 (q.add off) := by
    intro off hoff
    exact le32_congr (fun i hi => h (off + i) (by omega))
  have h0 : le32 p = le32 q := le32_congr (fun i hi => h i (by simp only [ackSize]; omega))
  simp only [headerValid, h0, hw 4 (by decide), hw 8 (by decide), hw 12 (by decide)]

theorem blkSeq_congr {p q : Ptr} (h : ∀ i < ackSize, p i = q i) : blkSeq p = blkSeq q := by
  have hw : le32 (p.add 12) = le32 (q.add 12) :=
    le32_congr (fun i hi => h (12 + i) (by simp only [ackSize]; omega))
  rw [blkSeq, blkSeq, hw]

/-- The low half of a word is its first two bytes. -/
theorem le32_low (p : Ptr) :
    (le32 p).toUInt16.toNat = (p 0).toNat + (p 1).toNat * 2 ^ 8 := by
  have h0 := (p 0).toNat_lt
  have h1 := (p 1).toNat_lt
  rw [UInt32.toNat_toUInt16, le32_toNat]
  omega

/-- Two bytes decide the magic. -/
theorem magicAt_congr {p q : Ptr} (h0 : p 0 = q 0) (h1 : p 1 = q 1) :
    magicAt p = magicAt q := by
  have heq : (le32 p).toUInt16 = (le32 q).toUInt16 := by
    apply UInt16.toNat_inj.mp
    rw [le32_low, le32_low, h0, h1]
  rw [magicAt, magicAt, heq]

theorem magicAt_first {p : Ptr} (h : magicAt p = true) : p 0 = 0xC6 := by
  have h0 := (p 0).toNat_lt
  have h1 := (p 1).toNat_lt
  have hlow := congrArg UInt16.toNat (eq_of_beq h)
  rw [le32_low] at hlow
  have hmagic : blkMagic16.toNat = 0x6CC6 := rfl
  apply UInt8.toNat_inj.mp
  show (p 0).toNat = 0xC6
  omega

/-- A legal header carries the magic. -/
theorem magicAt_of_headerValid {p : Ptr} {n : Nat} (h : headerValid p = some n) :
    magicAt p = true := by
  simp only [headerValid] at h
  split at h
  · cases h
  · rename_i hok
    simp only [Bool.not_eq_true', Bool.not_eq_false, blkHdrOk, Bool.and_eq_true] at hok
    exact hok.1

theorem headerValid_le {p : Ptr} {n : Nat} (h : headerValid p = some n) :
    n ≤ maxPayloadWords := by
  simp only [headerValid] at h
  split at h
  · cases h
  · split at h
    · cases h
    · split at h
      · cases h
      · rename_i hlen
        cases h
        by_contra hgt
        exact hlen ⟨by omega, fun hc => hgt hc.2⟩

/-! ## Extending the input -/

theorem ptrAt_append {l : List UInt8} (x : List UInt8) {i j : Nat} (h : i + j < l.length) :
    ptrAt (l ++ x) i j = ptrAt l i j := by
  simp only [ptrAt, List.getD_eq_getElem?_getD, List.getElem?_append_left h]

theorem acceptWhole_append {c c' : Ctl} {l l' : List UInt8} {n : Nat} {o : List Callback}
    (x : List UInt8) (h : acceptWhole c l n = some (c', l', o)) :
    acceptWhole c (l ++ x) n = some (c', l' ++ x, o) := by
  rw [acceptWhole] at h
  split at h
  · cases h
  · rename_i hlen
    have hlen' : ¬ (l ++ x).length < ackSize + 4 * n := by
      simp only [List.length_append]; omega
    have hseq : blkSeq (ptrAt (l ++ x) 0) = blkSeq (ptrAt l 0) :=
      blkSeq_congr (fun i hi => ptrAt_append x (by omega))
    have hpay : ((l ++ x).drop ackSize).take (4 * n) = (l.drop ackSize).take (4 * n) := by
      rw [List.drop_append_of_le_length (by omega),
        List.take_append_of_le_length (by simp only [List.length_drop]; omega)]
    rw [acceptWhole, if_neg hlen', hseq, hpay, List.drop_append_of_le_length (by omega)]
    simp only [Option.some.injEq, Prod.mk.injEq] at h ⊢
    obtain ⟨hc, hl, ho⟩ := h
    exact ⟨hc, by rw [hl], ho⟩

theorem acceptWhole_length {c c' : Ctl} {l l' : List UInt8} {n : Nat} {o : List Callback}
    (h : acceptWhole c l n = some (c', l', o)) : l'.length + ackSize ≤ l.length := by
  rw [acceptWhole] at h
  split at h
  · cases h
  · rename_i hlen
    cases h
    simp only [List.length_drop]
    omega

theorem parseStep_append {c c' : Ctl} {l l' : List UInt8} {o : List Callback}
    (x : List UInt8) (h : parseStep c l = some (c', l', o)) :
    parseStep c (l ++ x) = some (c', l' ++ x, o) := by
  -- the checks look at no byte behind the ones that are there
  have hhdr : ¬ l.length < ackSize →
      headerValid (ptrAt (l ++ x) 0) = headerValid (ptrAt l 0) := fun hlen =>
    headerValid_congr (fun i hi => ptrAt_append x (by omega))
  have hgrow : ∀ {k : Nat}, ¬ l.length < k → ¬ (l ++ x).length < k := by
    intro k hk
    simp only [List.length_append]; omega
  rw [parseStep] at h ⊢
  cases hs : c.state with
  | block =>
      simp only [hs] at h ⊢
      split at h
      · cases h
      · rename_i hlen
        rw [if_neg (hgrow hlen), hhdr hlen]
        cases hv : headerValid (ptrAt l 0) with
        | none =>
            rw [hv] at h
            cases h
            rfl
        | some n =>
            rw [hv] at h
            exact acceptWhole_append x h
  | scan =>
      simp only [hs] at h ⊢
      split at h
      · cases h
      · rename_i hlen
        have hmagic : magicAt (ptrAt (l ++ x) 0) = magicAt (ptrAt l 0) :=
          magicAt_congr (ptrAt_append x (by omega)) (ptrAt_append x (by omega))
        rw [if_neg (hgrow hlen), hmagic]
        split at h
        · rename_i hm
          cases h
          rw [if_pos hm, List.drop_append_of_le_length (by omega)]
        · rename_i hm
          rw [if_neg hm]
          split at h
          · cases h
          · rename_i hlen16
            rw [if_neg (hgrow hlen16), hhdr hlen16]
            cases hv : headerValid (ptrAt l 0) with
            | none =>
                rw [hv] at h
                cases h
                simp only [List.drop_append_of_le_length (show 1 ≤ l.length by omega)]
            | some n =>
                rw [hv] at h
                exact acceptWhole_append x h

/-- Twice the bytes, plus one while aligned: giving up the alignment
consumes nothing, every other step at least one byte. -/
def parseSize (c : Ctl) (l : List UInt8) : Nat :=
  2 * l.length + (if c.state = .block then 1 else 0)

theorem parseStep_lt {c c' : Ctl} {l l' : List UInt8} {o : List Callback}
    (h : parseStep c l = some (c', l', o)) : parseSize c' l' < parseSize c l := by
  have hacc : ∀ {n}, acceptWhole c l n = some (c', l', o) → parseSize c' l' < parseSize c l := by
    intro n hn
    have hlen := acceptWhole_length hn
    simp only [ackSize] at hlen
    simp only [parseSize]
    split <;> omega
  rw [parseStep] at h
  cases hs : c.state with
  | block =>
      simp only [hs] at h
      split at h
      · cases h
      · split at h
        · cases h
          simp [parseSize, hs, Ctl.resync]
        · exact hacc h
  | scan =>
      simp only [hs] at h
      split at h
      · cases h
      · have hdrop : ∀ {d}, some (c, l.drop 1, ([] : List Callback)) = some (c', l', d) →
            parseSize c' l' < parseSize c l := by
          intro d hd
          cases hd
          simp only [parseSize, List.length_drop, hs]
          simp only [reduceCtorEq, if_false]
          omega
        split at h
        · exact hdrop h
        · split at h
          · cases h
          · split at h
            · exact hdrop h
            · exact hacc h

/-- **The block layer is incremental.** -/
def blockMachine : Incremental Ctl UInt8 Callback where
  step := parseStep
  size := parseSize
  step_lt := parseStep_lt
  step_append := parseStep_append

end UsbSniffer.BlockLayer
