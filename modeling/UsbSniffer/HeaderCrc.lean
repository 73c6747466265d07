import UsbSniffer.Lib.Crc
import UsbSniffer.Stream.Machine

/-!
# What the header checksum detects

The CRC loop of `uhsif_hdr_crc16` is the register of `Lib/Crc.lean`, fed
with the twelve wire bytes of `w1..w3`, the highest bit of each byte
first (`hdrCrc16_eq`). A header is accepted when its magic stands and
the register is at zero behind those bits and the sixteen of the stored
checksum (`hdrOk_iff`); an error pattern goes through the register on
its own, so which patterns are seen does not depend on the header.
-/

namespace UsbSniffer.HeaderCrc

open Uhsif Lib.Crc BlockLayer

/-! ## The loop is the register -/

/-- The polynomial of the loop, its leading one apart. -/
def poly : BitVec (15 + 1) := 0x1021#16

theorem crcBit_eq (c : UInt16) : (crcBit c).toBitVec = shift poly c.toBitVec := by
  have hmsb : c &&& 0x8000 ≠ 0 ↔ c.toBitVec.msb = true := by
    rw [Ne, ← UInt16.toBitVec_inj, UInt16.toBitVec_and, BitVec.msb_eq_getLsbD_last]
    show ¬ c.toBitVec &&& BitVec.twoPow 16 15 = 0#16 ↔ _
    rw [BitVec.and_twoPow]
    cases c.toBitVec.getLsbD 15 with
    | false => simp
    | true => simp
  rw [crcBit, shift]
  by_cases hbit : c &&& 0x8000 ≠ 0
  · rw [if_pos hbit, if_pos (hmsb.mp hbit)]
    rfl
  · rw [if_neg hbit, if_neg (fun h => hbit (hmsb.mpr h))]
    rfl

theorem repeat_crcBit_eq (k : Nat) (c : UInt16) :
    (Nat.repeat crcBit k c).toBitVec = (shift poly)^[k] c.toBitVec := by
  induction k with
  | zero => rfl
  | succ k ih => rw [Function.iterate_succ_apply', ← ih, ← crcBit_eq]; rfl

/-- The bits of a byte on the wire. -/
def byteBits (b : UInt8) : List Bool := msbs b.toBitVec

@[simp] theorem byteBits_length (b : UInt8) : (byteBits b).length = 8 := by
  simp [byteBits, msbs]

/-- A byte in the upper half of the register. -/
theorem ofBits_byteBits (b : UInt8) :
    (ofBits (byteBits b) : BitVec (15 + 1)) = (b.toUInt16 <<< 8).toBitVec := by
  apply BitVec.eq_of_getMsbD_eq
  intro i hi
  show _ = ((b.toBitVec.setWidth 16) <<< 8).getMsbD i
  rw [getMsbD_ofBits _ (by simp), BitVec.getMsbD_shiftLeft, BitVec.getMsbD_setWidth]
  by_cases hlow : i < 8
  · simp [byteBits, msbs, hlow]
  · have hout : b.toBitVec.getMsbD i = false := BitVec.getMsbD_of_ge _ _ (by omega)
    simp [byteBits, msbs, hlow, hout]

theorem crcByte_eq (c : UInt16) (b : UInt8) :
    (crcByte c b).toBitVec = crc poly c.toBitVec (byteBits b) := by
  rw [crcByte, repeat_crcBit_eq, crc_ofBits _ _ (by simp), byteBits_length, ofBits_byteBits]
  rfl

/-- Byte `i` of a word is the one that was read there. -/
theorem le32_byte (p : Ptr) {i : Nat} (hi : i < 4) :
    ((le32 p >>> (UInt32.ofNat i * 8)) &&& 0xff).toUInt8 = p i := by
  have h0 := (p 0).toNat_lt
  have h1 := (p 1).toNat_lt
  have h2 := (p 2).toNat_lt
  have h3 := (p 3).toNat_lt
  have hmask : ∀ m : Nat, m &&& 255 = m % 2 ^ 8 := fun m => Nat.and_two_pow_sub_one_eq_mod m 8
  apply UInt8.toNat_inj.mp
  rw [UInt32.toNat_toUInt8, UInt32.toNat_and, UInt32.toNat_shiftRight, le32_toNat]
  show (_ >>> _ &&& 255) % 2 ^ 8 = _
  rw [hmask, Nat.shiftRight_eq_div_pow]
  interval_cases i
  · show _ / 2 ^ 0 % 2 ^ 8 % 2 ^ 8 = _
    omega
  · show _ / 2 ^ 8 % 2 ^ 8 % 2 ^ 8 = _
    omega
  · show _ / 2 ^ 16 % 2 ^ 8 % 2 ^ 8 = _
    omega
  · show _ / 2 ^ 24 % 2 ^ 8 % 2 ^ 8 = _
    omega

/-- The bits of the bytes at some offsets, in that order. -/
def bitsAt (p : Ptr) (offs : List Nat) : List Bool := offs.flatMap (fun i => byteBits (p i))

/-- The offsets of `w1..w3`. -/
def dataOffs : List Nat := [4, 5, 6, 7, 8, 9, 10, 11, 12, 13, 14, 15]

/-- The stored checksum, its high byte first. -/
def crcOffs : List Nat := [3, 2]

theorem foldl_crcByte (p : Ptr) (offs : List Nat) (c : UInt16) :
    (offs.foldl (fun c i => crcByte c (p i)) c).toBitVec = crc poly c.toBitVec (bitsAt p offs) := by
  induction offs generalizing c with
  | nil => rfl
  | cons i offs ih =>
      rw [List.foldl_cons, ih, crcByte_eq, bitsAt, bitsAt, List.flatMap_cons, crc_append]

theorem hdrCrc16_bytes (p : Ptr) :
    hdrCrc16 (le32 (p.add 4)) (le32 (p.add 8)) (le32 (p.add 12)) =
      dataOffs.foldl (fun c i => crcByte c (p i)) 0xFFFF := by
  have hoffs : dataOffs = (List.range 12).map (4 + ·) := rfl
  rw [hdrCrc16, hoffs, List.foldl_map]
  apply List.foldl_ext
  intro c i hi
  rw [List.mem_range] at hi
  have hmod : i % 4 < 4 := Nat.mod_lt i (by omega)
  apply congrArg (crcByte c)
  by_cases h1 : i < 4
  · rw [if_pos h1, le32_byte _ hmod, Nat.mod_eq_of_lt h1]
    rfl
  · by_cases h2 : i < 8
    · rw [if_neg h1, if_pos h2, le32_byte _ hmod]
      exact congrArg p (show 8 + i % 4 = 4 + i by omega)
    · rw [if_neg h1, if_neg h2, le32_byte _ hmod]
      exact congrArg p (show 12 + i % 4 = 4 + i by omega)

/-- **The checksum is the register** behind the wire bits of `w1..w3`. -/
theorem hdrCrc16_eq (p : Ptr) :
    (hdrCrc16 (le32 (p.add 4)) (le32 (p.add 8)) (le32 (p.add 12))).toBitVec =
      crc poly 0xFFFF#16 (bitsAt p dataOffs) := by
  rw [hdrCrc16_bytes, foldl_crcByte]
  rfl

/-! ## Accepted headers -/

/-- `uhsif_blk_hdr_ok` on the sixteen bytes at `hdr`. -/
def hdrOk (hdr : Ptr) : Bool :=
  blkHdrOk (le32 hdr) (le32 (hdr.add 4)) (le32 (hdr.add 8)) (le32 (hdr.add 12))

/-- What the checksum runs over, and the checksum behind it. -/
def codeOffs : List Nat := dataOffs ++ crcOffs

theorem magic_bytes_iff (p : Ptr) :
    (le32 p).toUInt16 = blkMagic16 ↔ p 0 = 0xC6 ∧ p 1 = 0x6C := by
  have h0 := (p 0).toNat_lt
  have h1 := (p 1).toNat_lt
  rw [← UInt16.toNat_inj, ← UInt8.toNat_inj, ← UInt8.toNat_inj, le32_low]
  show _ = 0x6CC6 ↔ _ = 0xC6 ∧ _ = 0x6C
  omega

/-- The high half of `w0` as a word. -/
def storedCrc (p : Ptr) : BitVec (15 + 1) := (p 3).toBitVec ++ (p 2).toBitVec

theorem msbs_storedCrc (p : Ptr) : msbs (storedCrc p) = bitsAt p crcOffs := by
  have happ : msbs ((p 3).toBitVec ++ (p 2).toBitVec) =
      msbs (p 3).toBitVec ++ msbs (p 2).toBitVec := msbs_append _ _
  rw [storedCrc, happ, bitsAt, crcOffs, List.flatMap_cons, List.flatMap_singleton]
  rfl

theorem storedCrc_iff (p : Ptr) (c : UInt16) :
    le32 p >>> 16 = c.toUInt32 ↔ c.toBitVec = storedCrc p := by
  have h0 := (p 0).toNat_lt
  have h1 := (p 1).toNat_lt
  have h2 := (p 2).toNat_lt
  have hword : (storedCrc p).toNat = (p 2).toNat + (p 3).toNat * 2 ^ 8 := by
    rw [storedCrc, BitVec.toNat_append, Nat.or_comm]
    exact or_shiftLeft_eq_add h2
  rw [← UInt32.toNat_inj, UInt32.toNat_shiftRight, le32_toNat, UInt16.toNat_toUInt32,
    ← BitVec.toNat_inj, hword, Nat.shiftRight_eq_div_pow]
  show _ / 2 ^ 16 = c.toNat ↔ c.toNat = _
  omega

/-- **Which headers are accepted**: the magic stands and the register
ends at zero. -/
theorem hdrOk_iff (p : Ptr) :
    hdrOk p = true ↔
      (p 0 = 0xC6 ∧ p 1 = 0x6C) ∧ crc poly 0xFFFF#16 (bitsAt p codeOffs) = 0#16 := by
  have hg : poly[0] = true := by decide
  have hcode : bitsAt p codeOffs = bitsAt p dataOffs ++ msbs (storedCrc p) := by
    rw [msbs_storedCrc, codeOffs, bitsAt, List.flatMap_append]
    rfl
  rw [hdrOk, blkHdrOk, Bool.and_eq_true, beq_iff_eq, beq_iff_eq, magic_bytes_iff, storedCrc_iff,
    hdrCrc16_eq, hcode, crc_check hg]

/-! ## Errors -/

/-- A header with the bits of `e` flipped. -/
def corrupt (p e : Ptr) : Ptr := fun i => p i ^^^ e i

/-- How many bits of the sixteen bytes are flipped. -/
def flips (e : Ptr) : Nat := (bitsAt e (List.range 16)).count true

/-- The flipped bits lie in `w1..w3`, among sixteen consecutive wire
bits. -/
def Burst (e : Ptr) : Prop :=
  (∀ i < 4, e i = 0) ∧
    ∃ start, ∀ k, (bitsAt e dataOffs).getD k false = true → start ≤ k ∧ k < start + 16

theorem bitsAt_corrupt (p e : Ptr) (offs : List Nat) :
    bitsAt (corrupt p e) offs = List.zipWith xor (bitsAt p offs) (bitsAt e offs) := by
  induction offs with
  | nil => rfl
  | cons i offs ih =>
      have hbyte : byteBits (corrupt p e i) =
          List.zipWith xor (byteBits (p i)) (byteBits (e i)) := msbs_xor _ _
      simp only [bitsAt, List.flatMap_cons] at ih ⊢
      rw [hbyte, ih, List.zipWith_append (by simp)]

theorem bitsAt_length (p q : Ptr) (offs : List Nat) :
    (bitsAt p offs).length = (bitsAt q offs).length := by
  simp [bitsAt]

/-- An accepted header stays accepted only when the magic is untouched
and the register does not see the flipped bits. -/
theorem hdrOk_corrupt {p e : Ptr} (hok : hdrOk p = true) (hbad : hdrOk (corrupt p e) = true) :
    (e 0 = 0 ∧ e 1 = 0) ∧ crc poly 0#16 (bitsAt e codeOffs) = 0#16 := by
  obtain ⟨⟨h0, h1⟩, hcrc⟩ := (hdrOk_iff p).mp hok
  obtain ⟨⟨h0', h1'⟩, hcrc'⟩ := (hdrOk_iff _).mp hbad
  have hsame : ∀ {a b : UInt8}, a ^^^ b = a → b = 0 := by
    intro a b h
    have hb := congrArg (a ^^^ ·) h
    simpa [← UInt8.xor_assoc] using hb
  constructor
  · exact ⟨hsame (h0'.trans h0.symm), hsame (h1'.trans h1.symm)⟩
  · have hlin := crc_xor (g := poly) 0xFFFF#16 0#16 _ _ (bitsAt_length p e codeOffs)
    rw [← bitsAt_corrupt, BitVec.xor_zero, hcrc, hcrc', BitVec.zero_xor] at hlin
    exact hlin.symm

/-- With the magic untouched every flip is in the codeword. -/
theorem flips_eq {e : Ptr} (h0 : e 0 = 0) (h1 : e 1 = 0) :
    flips e = (bitsAt e codeOffs).count true := by
  have hzero : (byteBits 0).count true = 0 := by decide
  have hrange : List.range 16 = [0, 1, 2, 3] ++ dataOffs := rfl
  rw [flips, hrange, codeOffs, bitsAt, bitsAt, List.flatMap_append, List.flatMap_append,
    List.count_append, List.count_append]
  simp only [crcOffs, List.flatMap_cons, List.flatMap_nil, List.count_append, h0, h1, hzero,
    List.count_nil]
  omega

/-! ## The three kinds of errors -/

/-- Up to the first one there are zeros. -/
theorem exists_first_one {bits : List Bool} {k : Nat} (h : bits.count true = k + 1) :
    ∃ a rest, bits = List.replicate a false ++ true :: rest ∧ rest.count true = k := by
  induction bits with
  | nil => simp at h
  | cons b bits ih =>
      cases b with
      | true => exact ⟨0, bits, rfl, by simpa using h⟩
      | false =>
          obtain ⟨a, rest, heq, hrest⟩ := ih (by simpa using h)
          exact ⟨a + 1, rest, by rw [heq, List.replicate_succ, List.cons_append], hrest⟩

theorem eq_zeros {bits : List Bool} (h : true ∉ bits) :
    bits = List.replicate bits.length false := by
  rw [List.eq_replicate_iff]
  refine ⟨rfl, ?_⟩
  intro b hb
  cases b with
  | false => rfl
  | true => exact absurd hb h

/-- Ones within a window leave zeros around it. -/
theorem exists_window {bits : List Bool} {start : Nat}
    (hin : ∀ k, bits.getD k false = true → start ≤ k ∧ k < start + 16) :
    ∃ a burst c, bits = List.replicate a false ++ burst ++ List.replicate c false ∧
      burst.length ≤ 16 := by
  have hone : ∀ k, bits[k]? = some true → start ≤ k ∧ k < start + 16 := by
    intro k hk
    exact hin k (by rw [List.getD_eq_getElem?_getD, hk]; rfl)
  have hbefore : true ∉ bits.take start := by
    intro h
    obtain ⟨k, hk⟩ := List.mem_iff_getElem?.mp h
    rw [List.getElem?_take] at hk
    split at hk
    · have := hone k hk
      omega
    · cases hk
  have hafter : true ∉ bits.drop (start + 16) := by
    intro h
    obtain ⟨k, hk⟩ := List.mem_iff_getElem?.mp h
    rw [List.getElem?_drop] at hk
    have := hone _ hk
    omega
  refine ⟨(bits.take start).length, (bits.drop start).take 16,
    (bits.drop (start + 16)).length, ?_, ?_⟩
  · rw [← eq_zeros hbefore, ← eq_zeros hafter, List.append_assoc, ← List.drop_drop,
      List.take_append_drop, List.take_append_drop]
  · rw [List.length_take]
    omega

theorem true_mem_byteBits {b : UInt8} (h : b ≠ 0) : true ∈ byteBits b := by
  by_contra hnone
  apply h
  apply UInt8.toBitVec_inj.mp
  apply BitVec.eq_of_getMsbD_eq
  intro i hi
  have hmem : b.toBitVec.getMsbD i ∈ byteBits b :=
    List.mem_map.mpr ⟨i, List.mem_range.mpr hi, rfl⟩
  have hbit : b.toBitVec.getMsbD i = false := by
    cases hb : b.toBitVec.getMsbD i with
    | false => rfl
    | true => exact absurd (hb ▸ hmem) hnone
  rw [hbit]
  simp

/-- Over no distance within a header does a single bit come back. -/
theorem shifts_top_ne {m : Nat} (h : m < 111) :
    (shift poly)^[m + 1] (top true) ≠ top true := by
  have hall : ∀ m : Fin 111, (shift poly)^[(m : Nat) + 1] (top true) ≠ top true := by
    decide +kernel
  exact hall ⟨m, h⟩

theorem crc_odd_ne {e : Ptr} (h0 : e 0 = 0) (h1 : e 1 = 0) (hodd : Odd (flips e)) :
    crc poly 0#16 (bitsAt e codeOffs) ≠ 0#16 := by
  rw [flips_eq h0 h1] at hodd
  exact crc_ne_of_odd (by decide) hodd

theorem crc_two_ne {e : Ptr} (h0 : e 0 = 0) (h1 : e 1 = 0) (htwo : flips e = 2) :
    crc poly 0#16 (bitsAt e codeOffs) ≠ 0#16 := by
  rw [flips_eq h0 h1] at htwo
  obtain ⟨a, rest, heq, hrest⟩ := exists_first_one htwo
  obtain ⟨m, last, rfl, hlast⟩ := exists_first_one hrest
  have hzeros : last = List.replicate last.length false := eq_zeros (List.count_eq_zero.mp hlast)
  have hlen : (bitsAt e codeOffs).length = 112 := by simp [bitsAt, codeOffs, dataOffs, crcOffs]
  have hm : m < 111 := by
    rw [heq] at hlen
    simp only [List.length_append, List.length_replicate, List.length_cons] at hlen
    omega
  rw [heq, hzeros]
  exact crc_pair (by decide) (shifts_top_ne hm)

theorem crc_burst_ne {e : Ptr} (hne : ∃ i < 16, e i ≠ 0) (hburst : Burst e) :
    crc poly 0#16 (bitsAt e codeOffs) ≠ 0#16 := by
  obtain ⟨hw0, start, hin⟩ := hburst
  have hcrc : bitsAt e crcOffs = List.replicate 16 false := by
    simp only [bitsAt, crcOffs, List.flatMap_cons, List.flatMap_nil, hw0 3 (by omega),
      hw0 2 (by omega)]
    rfl
  have hone : true ∈ bitsAt e dataOffs := by
    obtain ⟨i, hi, hbyte⟩ := hne
    have hdata : i ∈ dataOffs := by
      by_cases hlow : i < 4
      · exact absurd (hw0 i hlow) hbyte
      · simp only [dataOffs, List.mem_cons, List.not_mem_nil]
        omega
    exact List.mem_flatMap.mpr ⟨i, hdata, true_mem_byteBits hbyte⟩
  obtain ⟨a, burst, c, heq, hlen⟩ := exists_window hin
  have hmem : true ∈ burst := by
    rw [heq] at hone
    simpa using hone
  have hcode : bitsAt e codeOffs =
      List.replicate a false ++ burst ++ List.replicate (c + 16) false := by
    rw [codeOffs, bitsAt, List.flatMap_append]
    show bitsAt e dataOffs ++ bitsAt e crcOffs = _
    rw [hcrc, heq, List.append_assoc, ← List.replicate_add]
  rw [hcode]
  exact crc_burst (by decide) hlen hmem

/-- **What the header checksum detects.** Every corruption of an
accepted header that flips an odd number of bits, exactly two bits, or
bits of `w1..w3` within sixteen consecutive wire bits is rejected. -/
theorem corrupt_rejected (hdr e : Ptr) (hok : hdrOk hdr = true) (hne : ∃ i < 16, e i ≠ 0)
    (hkind : Odd (flips e) ∨ flips e = 2 ∨ Burst e) : hdrOk (corrupt hdr e) = false := by
  rw [← Bool.not_eq_true]
  intro hbad
  obtain ⟨⟨h0, h1⟩, hcrc⟩ := hdrOk_corrupt hok hbad
  obtain hodd | htwo | hburst := hkind
  · exact crc_odd_ne h0 h1 hodd hcrc
  · exact crc_two_ne h0 h1 htwo hcrc
  · exact crc_burst_ne hne hburst hcrc

/-- The header of a command acknowledgement. -/
def ackHeader : Ptr :=
  ptrAt [0xC6, 0x6C, 0x56, 0x31, 0x05, 0, 0, 0, 0xEF, 0xBE, 0xAD, 0xDE, 0, 0, 0, 0x2A] 0

/-- One bit flipped in `w1` and one in the stored checksum. -/
def twoFlips : Ptr := ptrAt [0, 0, 0x10, 0, 0, 0x40] 0

theorem corrupt_rejected_twoFlips :
    hdrOk ackHeader = true ∧ flips twoFlips = 2 ∧ hdrOk (corrupt ackHeader twoFlips) = false := by
  have hok : hdrOk ackHeader = true := by decide +kernel
  have htwo : flips twoFlips = 2 := by decide +kernel
  have hne : ∃ i < 16, twoFlips i ≠ 0 := ⟨2, by decide, by decide⟩
  exact ⟨hok, htwo, corrupt_rejected _ _ hok hne (.inr (.inl htwo))⟩

end UsbSniffer.HeaderCrc
