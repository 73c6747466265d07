import Mathlib.Tactic

/-!
# UHSIF block headers

The constants and the header arithmetic of `uhsif.h`: little-endian
words, the CRC-16 that the high half of `w0` carries over `w1..w3`, and
the block fields read from `w3`. A C pointer into a byte buffer is a
function from offsets to bytes; a header is read through offsets `0..15`
only (`blkHdrOk_congr` and its neighbours in the stream layer).

`Block` is the FPGA's side of the format: the fields of one upstream
block with the bounds that make it legal, and `Block.encode` its bytes
on the wire.
-/

namespace UsbSniffer.Uhsif

/-- `UHSIF_BLK_MAGIC16`: `w0[15:0]` of an upstream block header. -/
def blkMagic16 : UInt16 := 0x6CC6

/-- `UHSIF_ACK_SIZE`: the header alone, four words. -/
def ackSize : Nat := 16

/-- `UHSIF_MIN_PAYLOAD_WORDS`. -/
def minPayloadWords : Nat := 1

/-- `UHSIF_MAX_PAYLOAD_WORDS`. -/
def maxPayloadWords : Nat := 4092

/-- `UHSIF_BLK_MAX_SIZE`. -/
def blkMaxSize : Nat := 4 * (4 + maxPayloadWords)

/-- A pointer to bytes, as the offsets it may be read at. -/
abbrev Ptr := Nat → UInt8

/-- One bit of the CRC loop: shift left, and subtract the polynomial
when a one falls out. -/
def crcBit (crc : UInt16) : UInt16 :=
  if crc &&& 0x8000 ≠ 0 then (crc <<< 1) ^^^ 0x1021 else crc <<< 1

/-- The inner loop over one byte, most significant bit first. -/
def crcByte (crc : UInt16) (b : UInt8) : UInt16 :=
  Nat.repeat crcBit 8 (crc ^^^ (b.toUInt16 <<< 8))

/-- `uhsif_hdr_crc16`: CRC-16/CCITT-FALSE over the twelve wire bytes of
`w1`, `w2`, `w3`. -/
def hdrCrc16 (w1 w2 w3 : UInt32) : UInt16 :=
  (List.range 12).foldl
    (fun crc i =>
      let w := if i < 4 then w1 else if i < 8 then w2 else w3
      crcByte crc ((w >>> (UInt32.ofNat (i % 4) * 8)) &&& 0xff).toUInt8)
    0xFFFF

/-- `uhsif_blk_hdr_ok`: magic half-word plus checksum match. -/
def blkHdrOk (w0 w1 w2 w3 : UInt32) : Bool :=
  w0.toUInt16 == blkMagic16 && (w0 >>> 16) == (hdrCrc16 w1 w2 w3).toUInt32

/-- `uhsif_le32`. -/
def le32 (p : Ptr) : UInt32 :=
  (p 0).toUInt32 ||| ((p 1).toUInt32 <<< 8) ||| ((p 2).toUInt32 <<< 16) |||
    ((p 3).toUInt32 <<< 24)

/-- `uhsif_put_le32`, as the bytes it stores. -/
def putLe32 (v : UInt32) : List UInt8 :=
  [v.toUInt8, (v >>> 8).toUInt8, (v >>> 16).toUInt8, (v >>> 24).toUInt8]

/-- `p + off`. -/
def Ptr.add (p : Ptr) (off : Nat) : Ptr := fun i => p (off + i)

/-- `uhsif_blk_seq`: `w3[31:24]`. -/
def blkSeq (hdr : Ptr) : UInt8 := (le32 (hdr.add 12) >>> 24).toUInt8

/-- The pointer to element `off` of a byte list. -/
def ptrAt (l : List UInt8) (off : Nat) : Ptr := fun i => l.getD (off + i) 0

/-! ## Little-endian words as numbers -/

theorem or_shiftLeft_eq_add {a b n : Nat} (h : a < 2 ^ n) :
    a ||| b <<< n = a + b * 2 ^ n := by
  rw [Nat.or_comm, ← Nat.shiftLeft_add_eq_or_of_lt h, Nat.shiftLeft_eq, Nat.add_comm]

/-- A little-endian word is the sum of its bytes in base 256. -/
theorem le32_toNat (p : Ptr) :
    (le32 p).toNat = (p 0).toNat + (p 1).toNat * 2 ^ 8 + (p 2).toNat * 2 ^ 16 +
      (p 3).toNat * 2 ^ 24 := by
  have h0 := (p 0).toNat_lt
  have h1 := (p 1).toNat_lt
  have h2 := (p 2).toNat_lt
  have h3 := (p 3).toNat_lt
  have shl : ∀ (b : UInt8) (k : Nat) (w : UInt32), w.toNat = k → k < 32 → k ≤ 24 →
      (b.toUInt32 <<< w).toNat = b.toNat <<< k := by
    intro b k w hw hk hk'
    have hb := b.toNat_lt
    have hle : b.toNat * 2 ^ k < 2 ^ 32 :=
      calc b.toNat * 2 ^ k < 2 ^ 8 * 2 ^ k := Nat.mul_lt_mul_of_pos_right hb (by positivity)
        _ ≤ 2 ^ 8 * 2 ^ 24 := Nat.mul_le_mul_left _ (Nat.pow_le_pow_right (by omega) hk')
        _ = 2 ^ 32 := by norm_num
    rw [UInt32.toNat_shiftLeft, UInt8.toNat_toUInt32, hw, Nat.mod_eq_of_lt hk,
      Nat.shiftLeft_eq, Nat.mod_eq_of_lt hle]
  rw [le32, UInt32.toNat_or, UInt32.toNat_or, UInt32.toNat_or,
    shl (p 1) 8 8 rfl (by omega) (by omega), shl (p 2) 16 16 rfl (by omega) (by omega),
    shl (p 3) 24 24 rfl (by omega) (by omega), UInt8.toNat_toUInt32,
    or_shiftLeft_eq_add (n := 8) h0, or_shiftLeft_eq_add (n := 16) (by omega),
    or_shiftLeft_eq_add (n := 24) (by omega)]

/-- Reading back a stored word. -/
theorem le32_putLe32 (v : UInt32) (p : Ptr) (h : ∀ i (hi : i < 4), p i = (putLe32 v).get ⟨i, hi⟩) :
    le32 p = v := by
  have hv := v.toNat_lt
  apply UInt32.toNat_inj.mp
  rw [le32_toNat, h 0 (by omega), h 1 (by omega), h 2 (by omega), h 3 (by omega)]
  simp [putLe32, UInt32.toNat_shiftRight, Nat.shiftRight_eq_div_pow]
  omega

/-- A word is read from four bytes. -/
theorem le32_congr {p q : Ptr} (h : ∀ i < 4, p i = q i) : le32 p = le32 q := by
  simp only [le32, h 0 (by omega), h 1 (by omega), h 2 (by omega), h 3 (by omega)]

/-- The halves of `w0`. -/
theorem w0_halves (crc magic : UInt16) :
    ((crc.toUInt32 <<< 16) ||| magic.toUInt32).toUInt16 = magic ∧
      ((crc.toUInt32 <<< 16) ||| magic.toUInt32) >>> 16 = crc.toUInt32 := by
  have hcrc := crc.toNat_lt
  have hmagic := magic.toNat_lt
  have hword : ((crc.toUInt32 <<< 16) ||| magic.toUInt32).toNat =
      magic.toNat + crc.toNat * 2 ^ 16 := by
    have hshift : (crc.toUInt32 <<< 16).toNat = crc.toNat <<< 16 := by
      rw [UInt32.toNat_shiftLeft, UInt16.toNat_toUInt32]
      show crc.toNat <<< 16 % 2 ^ 32 = _
      rw [Nat.shiftLeft_eq, Nat.mod_eq_of_lt (by omega)]
    rw [UInt32.toNat_or, hshift, UInt16.toNat_toUInt32, Nat.or_comm,
      or_shiftLeft_eq_add (n := 16) hmagic]
  constructor
  · apply UInt16.toNat_inj.mp
    rw [UInt32.toNat_toUInt16, hword]
    omega
  · apply UInt32.toNat_inj.mp
    rw [UInt32.toNat_shiftRight, hword, UInt16.toNat_toUInt32, Nat.shiftRight_eq_div_pow]
    show _ / 2 ^ 16 = _
    omega

/-- The four words of a header, read through its bytes. -/
theorem words_at_header (w0 w1 w2 w3 : UInt32) (rest : List UInt8) :
    let l := putLe32 w0 ++ putLe32 w1 ++ putLe32 w2 ++ putLe32 w3 ++ rest
    le32 (ptrAt l 0) = w0 ∧ le32 (ptrAt l 4) = w1 ∧ le32 (ptrAt l 8) = w2 ∧
      le32 (ptrAt l 12) = w3 := by
  refine ⟨le32_putLe32 _ _ fun i hi => ?_, le32_putLe32 _ _ fun i hi => ?_,
    le32_putLe32 _ _ fun i hi => ?_, le32_putLe32 _ _ fun i hi => ?_⟩
  all_goals
    obtain rfl | rfl | rfl | rfl : i = 0 ∨ i = 1 ∨ i = 2 ∨ i = 3 := by omega
    all_goals rfl

/-! ## The FPGA's side: legal blocks and their bytes -/

/-- An upstream block: the fields the FPGA is free to choose, with the
bounds of the format. `reserved` is `w3[11:0]`; the payload is whole
words. -/
structure Block where
  w1 : UInt32
  w2 : UInt32
  seq : UInt8
  words : Nat
  reserved : Nat
  payload : List UInt8
  w1_lt : w1.toNat < 4096
  words_le : words ≤ maxPayloadWords
  reserved_lt : reserved < 4096
  payload_length : payload.length = 4 * words

namespace Block

theorem one_lt : (1 : UInt32).toNat < 4096 := by decide

theorem zero_lt : 0 < 4096 := by decide

/-- `w3 = {seq[7:0], payload_len[11:0], reserved[11:0]}`. -/
def w3 (b : Block) : UInt32 :=
  UInt32.ofNat (b.seq.toNat * 2 ^ 24 + b.words * 2 ^ 12 + b.reserved)

/-- `w0 = {crc16(w1, w2, w3), UHSIF_BLK_MAGIC16}`. -/
def w0 (b : Block) : UInt32 :=
  UInt32.ofNat ((hdrCrc16 b.w1 b.w2 b.w3).toNat * 2 ^ 16 + blkMagic16.toNat)

/-- The sixteen header bytes. -/
def header (b : Block) : List UInt8 :=
  putLe32 b.w0 ++ putLe32 b.w1 ++ putLe32 b.w2 ++ putLe32 b.w3

/-- The block on the wire. -/
def encode (b : Block) : List UInt8 := b.header ++ b.payload

@[simp] theorem header_length (b : Block) : b.header.length = 16 := by
  simp [header, putLe32]

@[simp] theorem encode_length (b : Block) : b.encode.length = 16 + 4 * b.words := by
  simp [encode, b.payload_length]

theorem w3_toNat (b : Block) :
    b.w3.toNat = b.seq.toNat * 2 ^ 24 + b.words * 2 ^ 12 + b.reserved := by
  have h1 := b.seq.toNat_lt
  have h2 := b.words_le
  have h3 := b.reserved_lt
  simp only [maxPayloadWords] at h2
  rw [w3, UInt32.toNat_ofNat_of_lt' (by simp only [UInt32.size]; omega)]

theorem w0_toNat (b : Block) :
    b.w0.toNat = (hdrCrc16 b.w1 b.w2 b.w3).toNat * 2 ^ 16 + blkMagic16.toNat := by
  have h1 := (hdrCrc16 b.w1 b.w2 b.w3).toNat_lt
  have h2 : blkMagic16.toNat < 2 ^ 16 := by decide
  rw [w0, UInt32.toNat_ofNat_of_lt' (by simp only [UInt32.size]; omega)]

/-- The header passes the magic and checksum test. -/
theorem blkHdrOk_words (b : Block) : blkHdrOk b.w0 b.w1 b.w2 b.w3 = true := by
  have h1 := (hdrCrc16 b.w1 b.w2 b.w3).toNat_lt
  have h2 : blkMagic16.toNat < 2 ^ 16 := by decide
  have hlo : b.w0.toUInt16 = blkMagic16 := by
    apply UInt16.toNat_inj.mp
    rw [UInt32.toNat_toUInt16, b.w0_toNat]
    omega
  have hhi : b.w0 >>> 16 = (hdrCrc16 b.w1 b.w2 b.w3).toUInt32 := by
    apply UInt32.toNat_inj.mp
    rw [UInt32.toNat_shiftRight, b.w0_toNat, UInt16.toNat_toUInt32,
      Nat.shiftRight_eq_div_pow]
    show _ / 2 ^ 16 = _
    omega
  simp [blkHdrOk, hlo, hhi]

end Block

end UsbSniffer.Uhsif
