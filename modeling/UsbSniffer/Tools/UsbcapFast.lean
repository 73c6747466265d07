import UsbSniffer.Stream.Delivery

/-!
# A second block parser: `usbcap_fast`

`parse_push` of `tools/usbcap_fast.c`, the measuring tool's own parser of
the same stream. It shares no code with `stream.c`: it scans with two
bytes of look-ahead, keeps a one-byte tail, steps over a bad header by
one byte without a second look at it and never gives a partial block up.

`parsePush_agrees` says that it takes the same payloads off the stream,
after every chunk. What the two have in common is a machine that always
scans (`payloadMachine`): the block machine's reports and its aligned
state leave no trace in the payloads (`watches_blockMachine`), and
`parse_push` implements it (`parse_implements`).

`stats_push`, which is given the same payloads, keeps statistics of its
own: `Tools/Stats.lean`.
-/

namespace UsbSniffer

/-- The payload a call hands over. -/
def Callback.payload : Callback → Option (List UInt8)
  | .data payload => some payload
  | .ack => none
  | .rsync => none

namespace Tools

open Uhsif Lib BlockLayer

/-! ## The payloads, without alignment -/

/-- The control fields of a stream that has seen nothing. -/
def scanning : Ctl := Stream.new.toCtl

/-- What a step does to the bytes, and the payloads it hands over. -/
def visible (r : Ctl × List UInt8 × List Callback) : Unit × List UInt8 × List (List UInt8) :=
  ((), r.2.1, r.2.2.filterMap Callback.payload)

/-- One step of a parser that looks for a legal header in front of every
block. -/
def payloadStep (l : List UInt8) : Option (Unit × List UInt8 × List (List UInt8)) :=
  (parseStep scanning l).map visible

theorem payloadStep_lt {l l' : List UInt8} {u : Unit} {o : List (List UInt8)}
    (h : payloadStep l = some (u, l', o)) : l'.length < l.length := by
  rw [payloadStep, Option.map_eq_some_iff] at h
  obtain ⟨⟨c₁, l₁, o₁⟩, hstep, hvis⟩ := h
  have hlt := parseStep_lt hstep
  cases hvis
  have hscan : parseSize scanning l = 2 * l.length := rfl
  have hle : 2 * l₁.length ≤ parseSize c₁ l₁ := Nat.le_add_right _ _
  show l₁.length < l.length
  omega

theorem payloadStep_append {l l' : List UInt8} {u : Unit} {o : List (List UInt8)}
    (x : List UInt8) (h : payloadStep l = some (u, l', o)) :
    payloadStep (l ++ x) = some (u, l' ++ x, o) := by
  rw [payloadStep, Option.map_eq_some_iff] at h
  obtain ⟨⟨c₁, l₁, o₁⟩, hstep, hvis⟩ := h
  cases hvis
  rw [payloadStep, parseStep_append x hstep]
  rfl

/-- **The parser that always scans.** -/
def payloadMachine : Incremental Unit UInt8 (List UInt8) where
  step _ l := payloadStep l
  size _ l := l.length
  step_lt := payloadStep_lt
  step_append := payloadStep_append

theorem parseStep_scan {c : Ctl} (hc : c.state = .scan) (l : List UInt8) :
    parseStep c l =
      if l.length < 2 then none
      else if magicAt (ptrAt l 0) = false then some (c, l.drop 1, [])
      else if l.length < ackSize then none
      else
        match headerValid (ptrAt l 0) with
        | none => some (c, l.drop 1, [])
        | some n => acceptWhole c l n := by
  cases hv : headerValid (ptrAt l 0) with
  | none => simp only [parseStep, hc, hv]
  | some n => simp only [parseStep, hc, hv]

/-- The payloads of a step and the bytes it leaves do not depend on the
sequence tracker. -/
theorem visible_acceptWhole (c c' : Ctl) (l : List UInt8) (n : Nat) :
    (acceptWhole c l n).map visible = (acceptWhole c' l n).map visible := by
  have hseq : ∀ (c : Ctl) seq, (c.trackSeq seq).2.filterMap Callback.payload = [] := by
    intro c seq
    rw [Stream.trackSeq_calls]
    split <;> rfl
  rw [acceptWhole, acceptWhole]
  split
  · rfl
  · simp only [Option.map_some, visible, List.filterMap_append, hseq, List.nil_append]

/-- A scanning block machine shows what the payload machine does. -/
theorem visible_scan {c : Ctl} (hc : c.state = .scan) (l : List UInt8) :
    (parseStep c l).map visible = payloadStep l := by
  rw [payloadStep, parseStep_scan hc, parseStep_scan rfl]
  by_cases h2 : l.length < 2
  · rw [if_pos h2, if_pos h2]
  · rw [if_neg h2, if_neg h2]
    by_cases hm : magicAt (ptrAt l 0) = false
    · rw [if_pos hm, if_pos hm]
      rfl
    · rw [if_neg hm, if_neg hm]
      by_cases h16 : l.length < ackSize
      · rw [if_pos h16, if_pos h16]
      · rw [if_neg h16, if_neg h16]
        cases headerValid (ptrAt l 0) with
        | none => rfl
        | some n => exact visible_acceptWhole c scanning l n

/-- A legal header in front is taken alike in both states. -/
theorem payloadStep_valid {l : List UInt8} (hl : ¬ l.length < ackSize) {n : Nat}
    (hv : headerValid (ptrAt l 0) = some n) :
    payloadStep l = (acceptWhole scanning l n).map visible := by
  have h16 : ackSize = 16 := rfl
  rw [payloadStep, parseStep_scan rfl]
  rw [if_neg (by omega), if_neg (by rw [magicAt_of_headerValid hv]; decide), if_neg hl, hv]

/-- A full header that is not legal costs one byte, magic or not. -/
theorem payloadStep_invalid {l : List UInt8} (hl : ¬ l.length < ackSize)
    (hv : headerValid (ptrAt l 0) = none) : payloadStep l = some ((), l.drop 1, []) := by
  have h16 : ackSize = 16 := rfl
  rw [payloadStep, parseStep_scan rfl]
  rw [if_neg (by omega), if_neg hl, hv]
  split <;> rfl

/-- Below sixteen bytes nothing is handed over. -/
theorem payload_drain_short {l : List UInt8} (hl : l.length < ackSize) :
    (payloadMachine.drain () l).2.2 = [] := by
  apply Incremental.drain_quiet (fun _ l => l.length < ackSize) _ hl
  intro _ l _ l' o hshort hstep
  have hs : payloadStep l = some ((), l', o) := hstep
  rw [payloadStep, Option.map_eq_some_iff] at hs
  obtain ⟨⟨c₁, l₁, o₁⟩, hparse, hvis⟩ := hs
  obtain ⟨rfl, rfl, rfl⟩ := Stream.step_short rfl hshort hparse
  cases hvis
  exact ⟨rfl, by rw [List.length_drop]; omega⟩

/-- **The payloads of the block machine are those of the payload
machine**, in whatever state it starts. -/
theorem watches_blockMachine :
    Watches payloadMachine blockMachine (fun _ => ()) Callback.payload where
  wait := by
    intro c l h
    have h' : parseStep c l = none := h
    cases hs : c.state with
    | scan =>
        have hvis := visible_scan hs l
        rw [h'] at hvis
        rw [Incremental.drain_of_none (show payloadMachine.step () l = none from hvis.symm)]
    | block =>
        rw [parseStep, hs] at h'
        by_cases hl : l.length < ackSize
        · exact payload_drain_short hl
        · simp only [if_neg hl] at h'
          cases hv : headerValid (ptrAt l 0) with
          | none =>
              rw [hv] at h'
              cases h'
          | some n =>
              -- the block in front is not complete: both wait
              rw [hv] at h'
              have hvis := payloadStep_valid hl hv
              rw [visible_acceptWhole scanning c l n, show acceptWhole c l n = none from h'] at hvis
              rw [Incremental.drain_of_none (show payloadMachine.step () l = none from hvis)]
  step := by
    intro c l c' l' o h
    have h' : parseStep c l = some (c', l', o) := h
    have hstep : ∀ {r}, payloadStep l = some r → r = visible (c', l', o) →
        (payloadMachine.drain () l).2.2 =
          o.filterMap Callback.payload ++ (payloadMachine.drain () l').2.2 := by
      intro r hr hvis
      rw [Incremental.drain_of_some (show payloadMachine.step () l = some (visible (c', l', o)) from
        hvis ▸ hr)]
    cases hs : c.state with
    | scan =>
        have hvis := visible_scan hs l
        rw [h'] at hvis
        exact hstep hvis.symm rfl
    | block =>
        rw [parseStep, hs] at h'
        by_cases hl : l.length < ackSize
        · simp only [if_pos hl] at h'
          cases h'
        · simp only [if_neg hl] at h'
          cases hv : headerValid (ptrAt l 0) with
          | none =>
              -- alignment is given up: no byte is dropped, nothing handed over
              rw [hv] at h'
              cases h'
              rfl
          | some n =>
              rw [hv] at h'
              have hvis := payloadStep_valid hl hv
              rw [visible_acceptWhole scanning c l n,
                show acceptWhole c l n = some (c', l', o) from h'] at hvis
              exact hstep hvis rfl

/-! ## `parse_push` as the code has it -/

/-- `URB_SIZE_MAX`. -/
def urbSizeMax : Nat := 4 * 1024 * 1024

/-- `sizeof(pbuf)`. -/
def pbufSize : Nat := 2 * urbSizeMax + 64

/-- `BLK_MAGIC`. -/
def blkMagic : UInt32 := 0x6CC6

/-- The static variables of `parse_push`. `lastSeq` is `none` for the
`-1` of `last_seq`. -/
structure UsbcapFast where
  pbuf : Ptr
  plenBuf : Nat
  aligned : Bool
  lastSeq : Option UInt8
  hdrErrors : UInt32
  seqJumps : UInt32
  acks : UInt32
  blocks : UInt32
  bytesPayload : UInt64

/-- `crc16` over `w[0..2]`. -/
def crc16 (w : Fin 3 → UInt32) : UInt16 :=
  (List.range 12).foldl
    (fun crc i =>
      let wv := w (Fin.ofNat 3 (i >>> 2))
      Nat.repeat crcBit 8
        (crc ^^^ (((wv >>> UInt32.ofNat ((i &&& 3) * 8)) &&& 0xFF) <<< 8).toUInt16))
    0xFFFF

/-- `seq` of the header at `hdr`. -/
def seqAt (hdr : Ptr) : UInt8 := ((le32 (hdr.add 12) >>> 24) &&& 0xFF).toUInt8

/-- `plen` of the header at `hdr`, when `ok`. -/
def headerOk (hdr : Ptr) : Option Nat :=
  let w0 := le32 hdr
  let w1 := le32 (hdr.add 4)
  let w2 := le32 (hdr.add 8)
  let w3 := le32 (hdr.add 12)
  let plen := ((w3 >>> 12) &&& 0xFFF).toNat
  if (w0 &&& 0xFFFF) = blkMagic ∧ w0 >>> 16 = (crc16 ![w1, w2, w3]).toUInt32 ∧
      (w1 &&& 0xFFFFF000) = 0 ∧ (plen = 0 ∨ (1 ≤ plen ∧ plen ≤ 4092)) then
    some plen
  else none

namespace UsbcapFast

/-- The statics before the first call. -/
def new : UsbcapFast where
  pbuf := fun _ => 0
  plenBuf := 0
  aligned := false
  lastSeq := none
  hdrErrors := 0
  seqJumps := 0
  acks := 0
  blocks := 0
  bytesPayload := 0

/-- The scan: the first `off ≤ i` with `i + 1 < plen_buf` and the two
magic bytes. -/
def findMagic (u : UsbcapFast) (off : Nat) : Option Nat :=
  (List.range' off (u.plenBuf - 1 - off)).find? fun i =>
    u.pbuf i == 0xC6 && u.pbuf (i + 1) == 0x6C

/-- Where the loop stands when it comes to read a header, and whether the
header is there. -/
def nextHeader (u : UsbcapFast) (off : Nat) : Nat × Bool :=
  if !u.aligned then
    match u.findMagic off with
    | none => (if u.plenBuf > 0 then u.plenBuf - 1 else 0, false)
    | some i => (i, !decide (u.plenBuf - i < 16))
  else (off, !decide (u.plenBuf - off < 16))

theorem findMagic_some {u : UsbcapFast} {off i : Nat} (h : u.findMagic off = some i) :
    off ≤ i ∧ i + 1 < u.plenBuf := by
  have hm := List.mem_of_find?_eq_some h
  rw [List.mem_range'_1] at hm
  omega

theorem nextHeader_aligned {u : UsbcapFast} (h : u.aligned = true) (off : Nat) :
    u.nextHeader off = (off, !decide (u.plenBuf - off < 16)) := by
  simp [nextHeader, h]

theorem nextHeader_found {u : UsbcapFast} {off i : Nat} (h : u.aligned = false)
    (hf : u.findMagic off = some i) :
    u.nextHeader off = (i, !decide (u.plenBuf - i < 16)) := by
  simp [nextHeader, h, hf]

theorem nextHeader_lost {u : UsbcapFast} {off : Nat} (h : u.aligned = false)
    (hf : u.findMagic off = none) :
    u.nextHeader off = (if u.plenBuf > 0 then u.plenBuf - 1 else 0, false) := by
  simp [nextHeader, h, hf]

theorem nextHeader_there {u : UsbcapFast} {off : Nat} (h : (u.nextHeader off).2 = true) :
    off ≤ (u.nextHeader off).1 ∧ (u.nextHeader off).1 + 16 ≤ u.plenBuf := by
  cases ha : u.aligned with
  | true =>
      rw [nextHeader_aligned ha] at h ⊢
      simp only [Bool.not_eq_true', decide_eq_false_iff_not] at h
      exact ⟨le_rfl, by omega⟩
  | false =>
      cases hf : u.findMagic off with
      | none =>
          rw [nextHeader_lost ha hf] at h
          cases h
      | some i =>
          have hi := findMagic_some hf
          rw [nextHeader_found ha hf] at h ⊢
          simp only [Bool.not_eq_true', decide_eq_false_iff_not] at h
          exact ⟨hi.1, by omega⟩

/-- A bad header. -/
def badHeader (u : UsbcapFast) : UsbcapFast :=
  { u with hdrErrors := u.hdrErrors + 1, aligned := false }

/-- A good header. -/
def goodHeader (u : UsbcapFast) : UsbcapFast := { u with aligned := true }

/-- The counters of a complete block. -/
def countBlock (u : UsbcapFast) (seq : UInt8) (plen : Nat) : UsbcapFast :=
  let u := { u with
    seqJumps := if u.lastSeq.any (fun q => seq != q + 1) then u.seqJumps + 1 else u.seqJumps
    lastSeq := some seq }
  if plen = 0 then { u with acks := u.acks + 1 }
  else { u with
    blocks := u.blocks + 1
    bytesPayload := u.bytesPayload + 4 * UInt64.ofNat plen }

@[simp] theorem countBlock_plenBuf (u : UsbcapFast) (seq : UInt8) (plen : Nat) :
    (u.countBlock seq plen).plenBuf = u.plenBuf := by
  rw [countBlock]
  split <;> rfl

@[simp] theorem countBlock_pbuf (u : UsbcapFast) (seq : UInt8) (plen : Nat) :
    (u.countBlock seq plen).pbuf = u.pbuf := by
  rw [countBlock]
  split <;> rfl

@[simp] theorem countBlock_aligned (u : UsbcapFast) (seq : UInt8) (plen : Nat) :
    (u.countBlock seq plen).aligned = u.aligned := by
  rw [countBlock]
  split <;> rfl

/-- What a complete block hands to `emit`. -/
def emitted (hdr : Ptr) (plen : Nat) : List (List UInt8) :=
  if plen = 0 then [] else [bytesAt (hdr.add 16) (4 * plen)]

/-- The loop of `parse_push`: the statics, the final `off` and the
payloads handed to `emit`. -/
def parseLoop (u : UsbcapFast) (off : Nat) : UsbcapFast × Nat × List (List UInt8) :=
  let next := u.nextHeader off
  if _h : next.2 = false then (u, next.1, [])
  else
    let hdr := u.pbuf.add next.1
    match headerOk hdr with
    | none => parseLoop u.badHeader (next.1 + 1)
    | some plen =>
        if u.plenBuf - next.1 < 16 + 4 * plen then (u.goodHeader, next.1, [])
        else
          let r := parseLoop (u.goodHeader.countBlock (seqAt hdr) plen) (next.1 + (16 + 4 * plen))
          (r.1, r.2.1, emitted hdr plen ++ r.2.2)
termination_by u.plenBuf - off
decreasing_by
  · have hle := nextHeader_there (Bool.eq_true_of_not_eq_false _h)
    show u.plenBuf - _ < u.plenBuf - off
    omega
  · have hle := nextHeader_there (Bool.eq_true_of_not_eq_false _h)
    rw [countBlock_plenBuf]
    show u.plenBuf - _ < u.plenBuf - off
    omega

/-- `plen_buf -= off` and the `memmove`. -/
def dropFront (u : UsbcapFast) (off : Nat) : UsbcapFast :=
  { u with
    plenBuf := u.plenBuf - off
    pbuf := if off ≠ 0 then memmove u.pbuf 0 off (u.plenBuf - off) else u.pbuf }

/-- The `memcpy` in front of the loop. -/
def push (u : UsbcapFast) (data : List UInt8) : UsbcapFast :=
  { u with pbuf := memcpy u.pbuf u.plenBuf data, plenBuf := u.plenBuf + data.length }

/-- `parse_push` on a buffer without end. -/
def parse (u : UsbcapFast) (data : List UInt8) : UsbcapFast × List (List UInt8) :=
  let r := (u.push data).parseLoop 0
  (r.1.dropFront r.2.1, r.2.2)

/-- `parse_push`; `none` where the `memcpy` would run past `pbuf`. -/
def parsePush (u : UsbcapFast) (data : List UInt8) : Option (UsbcapFast × List (List UInt8)) :=
  if u.plenBuf + data.length ≤ pbufSize then some (u.parse data) else none

end UsbcapFast

/-! ## The two header tests are one -/

theorem byte_shift (x : UInt32) :
    ((x &&& 0xFF) <<< 8).toUInt16 = (x &&& 0xff).toUInt8.toUInt16 <<< 8 := by
  have hx : (x &&& 0xff).toNat < 2 ^ 8 := by
    rw [UInt32.toNat_and]
    exact Nat.and_lt_two_pow _ (by decide)
  apply UInt16.toNat_inj.mp
  rw [UInt32.toNat_toUInt16, UInt32.toNat_shiftLeft, UInt16.toNat_shiftLeft, UInt8.toNat_toUInt16,
    UInt32.toNat_toUInt8, Nat.mod_eq_of_lt hx, Nat.shiftLeft_eq, Nat.shiftLeft_eq]
  show (x &&& 0xff).toNat * 2 ^ 8 % 2 ^ 32 % 2 ^ 16 = (x &&& 0xff).toNat * 2 ^ 8 % 2 ^ 16
  omega

/-- The tool's CRC is the plugin's. -/
theorem crc16_eq (w1 w2 w3 : UInt32) : crc16 ![w1, w2, w3] = hdrCrc16 w1 w2 w3 := by
  apply List.foldl_ext
  intro crc i hi
  have hlt : i < 12 := List.mem_range.mp hi
  show Nat.repeat crcBit 8 _ = Nat.repeat crcBit 8 _
  rw [byte_shift]
  interval_cases i <;> rfl

theorem magic_iff (w : UInt32) : (w &&& 0xFFFF) = blkMagic ↔ w.toUInt16 = blkMagic16 := by
  rw [← UInt32.toNat_inj, ← UInt16.toNat_inj, UInt32.toNat_and, UInt32.toNat_toUInt16]
  show w.toNat &&& (2 ^ 16 - 1) = 0x6CC6 ↔ w.toNat % 2 ^ 16 = 0x6CC6
  rw [Nat.and_two_pow_sub_one_eq_mod]

theorem blkHdrOk_iff (w0 w1 w2 w3 : UInt32) :
    blkHdrOk w0 w1 w2 w3 = true ↔
      (w0 &&& 0xFFFF) = blkMagic ∧ w0 >>> 16 = (crc16 ![w1, w2, w3]).toUInt32 := by
  rw [blkHdrOk, Bool.and_eq_true, beq_iff_eq, beq_iff_eq, magic_iff, crc16_eq]

/-- The tool accepts the headers the plugin accepts, with one length. -/
theorem headerOk_eq (hdr : Ptr) : headerOk hdr = headerValid hdr := by
  simp only [headerOk, headerValid]
  generalize ((le32 (hdr.add 12) >>> 12) &&& 0xFFF).toNat = plen
  have hok := blkHdrOk_iff (le32 hdr) (le32 (hdr.add 4)) (le32 (hdr.add 8)) (le32 (hdr.add 12))
  by_cases hb : blkHdrOk (le32 hdr) (le32 (hdr.add 4)) (le32 (hdr.add 8)) (le32 (hdr.add 12)) = true
  · obtain ⟨h0, h1⟩ := hok.mp hb
    rw [if_neg (show ¬ (!blkHdrOk _ _ _ _) = true by rw [hb]; decide)]
    by_cases h2 : le32 (hdr.add 4) &&& 0xFFFFF000 = 0
    · rw [if_neg (not_not.mpr h2)]
      have hmin : minPayloadWords = 1 := rfl
      have hmax : maxPayloadWords = 4092 := rfl
      by_cases h3 : plen = 0 ∨ (1 ≤ plen ∧ plen ≤ 4092)
      · rw [if_pos ⟨h0, h1, h2, h3⟩, if_neg (by omega)]
      · rw [if_neg (fun h => h3 h.2.2.2), if_pos (by omega)]
    · rw [if_neg (fun h => h2 h.2.2.1), if_pos h2]
  · rw [if_neg (fun h => hb (hok.mpr ⟨h.1, h.2.1⟩)), if_pos (by simpa using hb)]

/-- The scan's two bytes are the magic of the plugin's scan. -/
theorem magic_bytes (p : Ptr) : (p 0 == 0xC6 && p 1 == 0x6C) = magicAt p := by
  have h0 := (p 0).toNat_lt
  have h1 := (p 1).toNat_lt
  rw [Bool.eq_iff_iff, Bool.and_eq_true, beq_iff_eq, beq_iff_eq, magicAt, beq_iff_eq,
    ← UInt16.toNat_inj, le32_low, ← UInt8.toNat_inj, ← UInt8.toNat_inj]
  show (p 0).toNat = 0xC6 ∧ (p 1).toNat = 0x6C ↔ _ = 0x6CC6
  omega

namespace UsbcapFast

/-! ## The loop follows the payload machine -/

/-- The bytes in the buffer. -/
def held (u : UsbcapFast) : List UInt8 := bytesAt u.pbuf u.plenBuf

@[simp] theorem held_length (u : UsbcapFast) : u.held.length = u.plenBuf := by
  simp [held, bytesAt]

theorem ptrAt_held (u : UsbcapFast) {i j : Nat} (h : i + j < u.plenBuf) :
    ptrAt u.held i j = u.pbuf.add i j := by
  simp [ptrAt, held, bytesAt, Ptr.add, h]

theorem headerValid_held (u : UsbcapFast) {i : Nat} (h : i + 16 ≤ u.plenBuf) :
    headerValid (ptrAt (u.held.drop i) 0) = headerOk (u.pbuf.add i) := by
  rw [headerOk_eq, Stream.ptrAt_drop]
  exact headerValid_congr fun j hj => u.ptrAt_held (by simp only [ackSize] at hj; omega)

theorem magicAt_held (u : UsbcapFast) {i : Nat} (h : i + 1 < u.plenBuf) :
    magicAt (ptrAt (u.held.drop i) 0) = (u.pbuf i == 0xC6 && u.pbuf (i + 1) == 0x6C) := by
  have hadd := magic_bytes (u.pbuf.add i)
  simp only [Ptr.add, Nat.add_zero] at hadd
  rw [hadd, Stream.ptrAt_drop]
  exact magicAt_congr (u.ptrAt_held (by omega)) (u.ptrAt_held (by omega))

/-- Where the payload machine comes to rest from offset `off` on. -/
def restFrom (u : UsbcapFast) (off : Nat) : Unit × List UInt8 × List (List UInt8) :=
  payloadMachine.drain () (u.held.drop off)

theorem restFrom_short {u : UsbcapFast} {off : Nat} (h : u.plenBuf - off < 16) :
    (u.restFrom off).2.2 = [] := by
  apply payload_drain_short
  simpa [ackSize] using h

/-- A silent step over one byte. -/
theorem restFrom_succ {u : UsbcapFast} {off : Nat}
    (h : payloadStep (u.held.drop off) = some ((), (u.held.drop off).drop 1, [])) :
    u.restFrom off = u.restFrom (off + 1) := by
  rw [restFrom, restFrom, Incremental.drain_of_silent (M := payloadMachine) h, List.drop_drop]

/-- The scan's skip is a silent run. -/
theorem restFrom_skip {u : UsbcapFast} {off k : Nat} (hle : off ≤ k) (hk : k + 1 ≤ u.plenBuf)
    (hm : ∀ i, off ≤ i → i < k → (u.pbuf i == 0xC6 && u.pbuf (i + 1) == 0x6C) = false) :
    u.restFrom off = u.restFrom k := by
  induction k, hle using Nat.le_induction with
  | base => rfl
  | succ k hle ih =>
      rw [ih (by omega) (fun i hi hik => hm i hi (by omega))]
      apply restFrom_succ
      rw [payloadStep, parseStep_scan rfl, if_neg (by simp; omega),
        if_pos (by rw [u.magicAt_held (by omega)]; exact hm k hle (by omega))]
      rfl

/-- What the loop guarantees, started at `off`. -/
structure Parsed (u : UsbcapFast) (off : Nat) (r : UsbcapFast × Nat × List (List UInt8)) : Prop where
  held_eq : r.1.held = u.held
  plenBuf_eq : r.1.plenBuf = u.plenBuf
  tail_lt : u.plenBuf - r.2.1 < blkMaxSize
  payloads : (u.restFrom off).2.2 = r.2.2
  settled : u.restFrom r.2.1 = ((), (u.restFrom off).2.1, [])

/-- The loop may start here: a scan has a byte to start at. -/
def CanScan (u : UsbcapFast) (off : Nat) : Prop :=
  u.aligned = false → off = 0 ∨ off < u.plenBuf

theorem findMagic_before {u : UsbcapFast} {off k : Nat} (hk : k + 1 ≤ u.plenBuf)
    (h : u.findMagic off = none ∨ u.findMagic off = some k) :
    ∀ i, off ≤ i → i < k → (u.pbuf i == 0xC6 && u.pbuf (i + 1) == 0x6C) = false := by
  intro i hi hik
  have hmem : i ∈ List.range' off (u.plenBuf - 1 - off) := by
    rw [List.mem_range'_1]
    omega
  rcases h with h | h
  · rw [findMagic, List.find?_eq_none] at h
    simpa using h i hmem
  · rw [findMagic, List.find?_range'_eq_some] at h
    simpa only [Bool.not_eq_true'] using h.2.2 i hi hik

/-- The way to the next header is silent, and a header that is not there
leaves fewer than sixteen bytes. -/
theorem restFrom_nextHeader {u : UsbcapFast} {off : Nat} (hs : u.CanScan off) :
    u.restFrom off = u.restFrom (u.nextHeader off).1 ∧
      ((u.nextHeader off).2 = false → u.plenBuf - (u.nextHeader off).1 < 16) := by
  cases ha : u.aligned with
  | true =>
      rw [nextHeader_aligned ha]
      exact ⟨rfl, fun h => by simpa using h⟩
  | false =>
      cases hf : u.findMagic off with
      | some i =>
          have hi := findMagic_some hf
          rw [nextHeader_found ha hf]
          exact ⟨restFrom_skip hi.1 (by omega) (findMagic_before (by omega) (.inr hf)),
            fun h => by simpa using h⟩
      | none =>
          rw [nextHeader_lost ha hf]
          rcases Nat.eq_zero_or_pos u.plenBuf with h0 | hpos
          · -- an empty buffer: the scan has not moved
            have hoff : off = 0 := by
              rcases hs ha with h | h
              · exact h
              · omega
            simp [h0, hoff]
          · have hlt : off < u.plenBuf := by
              rcases hs ha with h | h <;> omega
            rw [if_pos hpos]
            exact ⟨restFrom_skip (by omega) (by omega) (findMagic_before (by omega) (.inl hf)),
              fun _ => by omega⟩

theorem Parsed.of_quiet {u u' : UsbcapFast} {off k : Nat} (hheld : u'.held = u.held)
    (hlen : u'.plenBuf = u.plenBuf) (hlt : u.plenBuf - k < blkMaxSize)
    (hrest : u.restFrom off = u.restFrom k) (hq : (u.restFrom k).2.2 = []) :
    Parsed u off (u', k, []) :=
  ⟨hheld, hlen, hlt, by rw [hrest, hq], by rw [hrest, ← hq]⟩

/-- The loop goes on, with other counters, behind a machine step. -/
theorem Parsed.andThen {u : UsbcapFast} (v : UsbcapFast) {off k : Nat} {o : List (List UInt8)}
    {r : UsbcapFast × Nat × List (List UInt8)} (hbuf : v.pbuf = u.pbuf)
    (hlen : v.plenBuf = u.plenBuf)
    (hrest : u.restFrom off = ((u.restFrom k).1, (u.restFrom k).2.1, o ++ (u.restFrom k).2.2))
    (h : Parsed v k r) : Parsed u off (r.1, r.2.1, o ++ r.2.2) := by
  have hheld : v.held = u.held := by rw [held, held, hbuf, hlen]
  have hfrom : ∀ i, v.restFrom i = u.restFrom i := by
    intro i
    rw [restFrom, restFrom, hheld]
  have hpay := h.payloads
  have hset := h.settled
  rw [hfrom] at hpay hset
  refine ⟨h.held_eq.trans hheld, h.plenBuf_eq.trans hlen, hlen ▸ h.tail_lt, ?_, ?_⟩
  · rw [hrest, hpay]
  · rw [← hfrom, hfrom, hset, hfrom, hrest]

/-- A complete block in front is the machine's step. -/
theorem restFrom_block {u : UsbcapFast} {k plen : Nat} (hv : headerOk (u.pbuf.add k) = some plen)
    (hlen : k + (16 + 4 * plen) ≤ u.plenBuf) :
    u.restFrom k = ((u.restFrom (k + (16 + 4 * plen))).1, (u.restFrom (k + (16 + 4 * plen))).2.1,
      emitted (u.pbuf.add k) plen ++ (u.restFrom (k + (16 + 4 * plen))).2.2) := by
  have h16 : ackSize = 16 := rfl
  have hl : ¬ (u.held.drop k).length < ackSize := by simp; omega
  have hpay : ((u.held.drop k).drop ackSize).take (4 * plen) =
      bytesAt ((u.pbuf.add k).add 16) (4 * plen) := by
    apply List.ext_getElem
    · simp [bytesAt, ackSize]
      omega
    · intro i h₁ h₂
      simp [held, bytesAt, Ptr.add, ackSize, Nat.add_assoc]
  have hstep : payloadMachine.step () (u.held.drop k) =
      some ((), u.held.drop (k + (16 + 4 * plen)), emitted (u.pbuf.add k) plen) := by
    show payloadStep _ = _
    rw [payloadStep_valid hl ((u.headerValid_held (by omega)).trans hv), acceptWhole,
      if_neg (by simp [ackSize]; omega), hpay, List.drop_drop]
    rw [emitted, deliver]
    split <;> rfl
  rw [restFrom, Incremental.drain_of_some hstep]
  rfl

/-- **The loop of `parse_push` runs the payload machine**: one pass is a
silent run to the next header and at most one step there. -/
theorem parseLoop_spec (u : UsbcapFast) (off : Nat) (hs : u.CanScan off) :
    Parsed u off (u.parseLoop off) := by
  fun_induction parseLoop u off with
  | case1 u off next hmissing =>
      obtain ⟨hrest, hshort⟩ := restFrom_nextHeader hs
      have hlt := hshort hmissing
      exact Parsed.of_quiet rfl rfl (Nat.lt_trans hlt (by decide)) hrest (restFrom_short hlt)
  | case2 u off next hthere hdr hbad ih =>
      -- a bad header, aligned or not: one byte further, scanning
      obtain ⟨hrest, -⟩ := restFrom_nextHeader hs
      have hle : next.1 + 16 ≤ u.plenBuf :=
        (nextHeader_there (Bool.eq_true_of_not_eq_false hthere)).2
      have hl : ¬ (u.held.drop next.1).length < ackSize := by simp [ackSize]; omega
      have hstep := payloadStep_invalid hl ((u.headerValid_held hle).trans hbad)
      have hnext : u.badHeader.CanScan (next.1 + 1) := by
        intro _
        right
        show next.1 + 1 < u.plenBuf
        omega
      have hsame : u.restFrom off = u.restFrom (next.1 + 1) := hrest.trans (restFrom_succ hstep)
      exact Parsed.andThen (u := u) (o := []) u.badHeader rfl rfl hsame (ih hnext)
  | case3 u off next hthere hdr plen hok hpart =>
      obtain ⟨hrest, -⟩ := restFrom_nextHeader hs
      have hle : next.1 + 16 ≤ u.plenBuf :=
        (nextHeader_there (Bool.eq_true_of_not_eq_false hthere)).2
      have hv := (u.headerValid_held hle).trans hok
      have hmax := headerValid_le hv
      have hl : ¬ (u.held.drop next.1).length < ackSize := by simp [ackSize]; omega
      have hwait : payloadMachine.step () (u.held.drop next.1) = none := by
        show payloadStep _ = none
        rw [payloadStep_valid hl hv, acceptWhole, if_pos (by simpa [ackSize] using hpart)]
        rfl
      refine Parsed.of_quiet rfl rfl ?_ hrest (by rw [restFrom, Incremental.drain_of_none hwait])
      simp only [maxPayloadWords] at hmax
      simp only [blkMaxSize, maxPayloadWords]
      omega
  | case4 u off next hthere hdr plen hok hwhole r ih =>
      obtain ⟨hrest, -⟩ := restFrom_nextHeader hs
      have hle : next.1 + 16 ≤ u.plenBuf :=
        (nextHeader_there (Bool.eq_true_of_not_eq_false hthere)).2
      have hnext : (u.goodHeader.countBlock (seqAt hdr) plen).CanScan (next.1 + (16 + 4 * plen)) := by
        intro ha
        rw [countBlock_aligned] at ha
        cases ha
      have hblock := restFrom_block hok (show next.1 + (16 + 4 * plen) ≤ u.plenBuf by omega)
      exact Parsed.andThen (u := u) _ (countBlock_pbuf u.goodHeader _ _)
        (countBlock_plenBuf u.goodHeader _ _) (hrest.trans hblock) (ih hnext)

/-! ## `parse_push` implements the payload machine -/

theorem held_push (u : UsbcapFast) (data : List UInt8) : (u.push data).held = u.held ++ data :=
  bytesAt_memcpy u.pbuf u.plenBuf data

theorem held_dropFront (u : UsbcapFast) (off : Nat) :
    (u.dropFront off).held = u.held.drop off := by
  apply List.ext_getElem
  · simp [dropFront]
  · intro i h₁ h₂
    have hi : i < u.plenBuf - off := by simpa [dropFront] using h₁
    by_cases h0 : off = 0
    · simp [held, bytesAt, dropFront, h0]
    · simp [held, bytesAt, dropFront, h0, memmove, hi]

/-- Between two calls less than one maximum block is held. -/
def Held (u : UsbcapFast) : Prop := u.plenBuf < blkMaxSize

theorem held_parse (u : UsbcapFast) (x : List UInt8) : (u.parse x).1.Held := by
  have hp := parseLoop_spec (u.push x) 0 (fun _ => .inl rfl)
  show ((u.push x).parseLoop 0).1.plenBuf - _ < _
  rw [hp.plenBuf_eq]
  exact hp.tail_lt

/-- **`parse_push` implements the payload machine.** -/
theorem parse_implements :
    Implements payloadMachine Held (fun u => ((), u.held)) (fun u data => some (u.parse data)) where
  feed_spec := by
    intro u c l x hu hd
    have hp := parseLoop_spec (u.push x) 0 (fun _ => .inl rfl)
    have hpay := hp.payloads
    have hset := hp.settled
    simp only [restFrom, held_push, List.drop_zero] at hpay hset
    rw [Incremental.drain_append, hd] at hpay hset
    refine ⟨_, _, rfl, held_parse u x, hpay, ?_⟩
    show payloadMachine.drain () (dropFront _ _).held = _
    rw [held_dropFront, hp.held_eq, held_push]
    exact hset

/-- The `memcpy` of a chunk of at most `URB_SIZE_MAX` stays inside the
buffer. -/
theorem parsePush_eq {u : UsbcapFast} {x : List UInt8} (hu : u.Held) (hx : x.length ≤ urbSizeMax) :
    u.parsePush x = some (u.parse x) := by
  have hfit : blkMaxSize + urbSizeMax ≤ pbufSize := by decide
  have hu' : u.plenBuf < blkMaxSize := hu
  rw [parsePush, if_pos (by omega)]

theorem held_new : new.Held := by
  show 0 < blkMaxSize
  decide

/-- On chunks of at most `URB_SIZE_MAX`, the payloads handed to `emit`
are the payload machine's. -/
theorem feedAll_parsePush (xs : List (List UInt8)) (hx : ∀ x ∈ xs, x.length ≤ urbSizeMax) :
    ∃ u, feedAll parsePush new xs = some (u, (payloadMachine.drain () xs.flatten).2.2) := by
  have hwait : payloadMachine.step () [] = none := rfl
  have hstart : payloadMachine.drain () new.held = ((), [], []) := Incremental.drain_of_none hwait
  obtain ⟨u, o, hfeed, -, ho, -⟩ := parse_implements.feedAll xs held_new hstart hwait
  have hsame : feedAll parsePush new xs =
      feedAll (fun u data => some (u.parse data)) new xs := by
    have hinv : ∀ {u x u' o}, Held u → some (u.parse x) = some (u', o) → Held u' := by
      intro u x u' o _ hf
      cases hf
      exact held_parse u x
    exact feedAll_congr parsePush (fun u data => some (u.parse data))
      (P := fun x => x.length ≤ urbSizeMax) parsePush_eq hinv xs held_new hx
  exact ⟨u, by rw [hsame, hfeed, ← ho]; rfl⟩

end UsbcapFast

/-- **The tool and the plugin take the same payloads off the stream**:
for every byte sequence cut into chunks of at most `URB_SIZE_MAX`, and
after every chunk, `parse_push` has not left its buffer and has handed to
`emit` the payloads `stream_feed` has handed to `data_cb`. -/
theorem parsePush_agrees (xs : List (List UInt8)) (hx : ∀ x ∈ xs, x.length ≤ urbSizeMax) (k : Nat) :
    ∃ s calls u, feedAll Stream.feed Stream.new (xs.take k) = some (s, calls) ∧
      feedAll UsbcapFast.parsePush UsbcapFast.new (xs.take k) =
        some (u, calls.filterMap Callback.payload) := by
  have hwait : blockMachine.step Stream.new.toCtl [] = none := rfl
  have hstart : blockMachine.drain (Stream.abs Stream.new).1 (Stream.abs Stream.new).2 =
      (Stream.new.toCtl, [], []) := Incremental.drain_of_none hwait
  obtain ⟨s, calls, hfeed, -, hcalls, -⟩ :=
    Stream.feed_implements.feedAll (xs.take k) Stream.ready_new hstart hwait
  obtain ⟨u, hu⟩ := UsbcapFast.feedAll_parsePush (xs.take k)
    (fun x hm => hx x (List.mem_of_mem_take hm))
  have hwatch := watches_blockMachine.drain Stream.new.toCtl (xs.take k).flatten
  rw [List.nil_append] at hcalls
  rw [hwatch, hcalls] at hu
  exact ⟨s, calls, u, hfeed, hu⟩

/-- A stray magic byte, a block cut inside its header and a word of
garbage behind it. -/
def ragged : List (List UInt8) :=
  [[0xC6], (Stream.wordBlock 3 1 2 3 4).encode.take 10,
    (Stream.wordBlock 3 1 2 3 4).encode.drop 10 ++ [0xC6, 0x6C, 0, 0]]

theorem parsePush_agrees_ragged :
    (∀ x ∈ ragged, x.length ≤ urbSizeMax) ∧
    ∃ s calls u, feedAll Stream.feed Stream.new (ragged.take 3) = some (s, calls) ∧
      feedAll UsbcapFast.parsePush UsbcapFast.new (ragged.take 3) =
        some (u, calls.filterMap Callback.payload) :=
  ⟨by decide +kernel, parsePush_agrees ragged (by decide +kernel) 3⟩

end Tools

end UsbSniffer
