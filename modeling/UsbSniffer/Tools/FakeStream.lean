import UsbSniffer.Packet.Frames
import UsbSniffer.Stream.Delivery

/-!
# The stream generator of the offline suite

`tools/make_fake_stream.py`: packets with their times become capture
frames (a data frame each, and a status frame for every turn of the
20-bit timestamp), the frames become UHSIF blocks behind six ACKs. The
functions are the script's, over natural numbers for Python's integers;
`bytes` and `struct.pack` get values in range throughout. `None` is a
failed assertion.

The generator is read back in the terms of the two layers it imitates:
its capture is the encoding of well-formed frames that stand for the
packets (`capture_frames`), and its stream the encoding of legal blocks
that carry the capture (`dataBlocks_wraps`).
-/

namespace UsbSniffer.FakeStream

open Uhsif Lib

/-! ## The script -/

/-- `UHSIF_BLK_MAGIC16`. -/
def blkMagic16 : Nat := 0x6CC6

def ackSeqStart : Nat := 0
def dataSeqStart : Nat := 6
def cmdWords : Nat := 4092
def ackCount : Nat := 6
def channelMask : Nat := 1
def capturing : Nat := 1

/-- One bit of the loop in `crc16`. -/
def crcBit (crc : Nat) : Nat :=
  if crc &&& 0x8000 ≠ 0 then ((crc <<< 1) ^^^ 0x1021) &&& 0xFFFF else (crc <<< 1) &&& 0xFFFF

/-- `(w1, w2, w3)[i >> 2]`. -/
def crcWord (w1 w2 w3 i : Nat) : Nat :=
  match i >>> 2 with
  | 0 => w1
  | 1 => w2
  | _ => w3

/-- `crc16`. -/
def crc16 (w1 w2 w3 : Nat) : Nat :=
  (List.range 12).foldl
    (fun crc i =>
      Nat.repeat crcBit 8 (crc ^^^ (((crcWord w1 w2 w3 i >>> ((i &&& 3) * 8)) &&& 0xFF) <<< 8)))
    0xFFFF

/-- `struct.pack('<I', v)`. -/
def packI (v : Nat) : List UInt8 := putLe32 (UInt32.ofNat v)

/-- `block_header`. -/
def blockHeader (chmask capturing words seq : Nat) : List UInt8 :=
  let w1 := chmask &&& 0xFFF
  let w2 := ((0 &&& 1) <<< 19) ||| ((capturing &&& 1) <<< 18) ||| ((0 &&& 3) <<< 16) |||
    (0 &&& 0x7FF) ||| 2
  let w3 := ((seq &&& 0xFF) <<< 24) ||| ((words &&& 0xFFF) <<< 12)
  let w0 := (crc16 w1 w2 w3 <<< 16) ||| blkMagic16
  packI w0 ++ packI w1 ++ packI w2 ++ packI w3

/-- The loop of `ns_to_ticks`. -/
def nsToTicksFrom (tsNs ticks : Nat) : Nat :=
  if ticks * 100 / 6 < tsNs then nsToTicksFrom tsNs (ticks + 1) else ticks
termination_by tsNs - ticks * 100 / 6

/-- `ns_to_ticks`. -/
def nsToTicks (tsNs : Nat) : Nat := nsToTicksFrom tsNs (tsNs * 6 / 100)

/-- `0x40 if toggle else 0`. -/
def toggleBit (toggle : Nat) : Nat := if toggle ≠ 0 then 0x40 else 0

/-- `overflow_marker`. -/
def overflowMarker (toggle ls speed : Nat) : List UInt8 :=
  let b0 := 0x10 ||| toggleBit toggle ||| (0xF0000 >>> 16)
  let b1 := (0xF0000 >>> 8) &&& 0xFF
  let b2 := 0xF0000 &&& 0xFF
  let b3 := (ls &&& 0xF) ||| ((speed &&& 3) <<< 6)
  [UInt8.ofNat b0, UInt8.ofNat b1, UInt8.ofNat b2, UInt8.ofNat b3]

/-- `data_header`. -/
def dataHeader (tsNs toggle payloadLen : Nat) (ticksIn : Option Nat) : Option (List UInt8) :=
  let ticks := ticksIn.getD (nsToTicks tsNs)
  let ts20 := ticks &&& 0xFFFFF
  let size := 7 + payloadLen
  if 7 ≤ size ∧ size ≤ 1280 then
    let b0 := 0x80 ||| toggleBit toggle ||| 0 ||| (ts20 >>> 16)
    let b1 := (ts20 >>> 8) &&& 0xFF
    let b2 := ts20 &&& 0xFF
    let b3 := (size >>> 8) &&& 0x07
    let b4 := size &&& 0xFF
    some [UInt8.ofNat b0, UInt8.ofNat b1, UInt8.ofNat b2, UInt8.ofNat b3, UInt8.ofNat b4, 0, 0]
  else none

/-- The choices of `--speed`. -/
inductive SpeedArg where
  | ls
  | fs
  | hs
  | auto
  deriving DecidableEq, Repr

/-- `SPEED_TO_IDX`. -/
def speedToIdx : SpeedArg → Nat
  | .ls => 0
  | .fs => 1
  | .hs => 2
  | .auto => 3

/-- The variables of the capture loop in `main`. -/
structure Builder where
  capture : List UInt8
  prevMarkers : Int
  gidx : Nat

/-- `capture = bytearray()` and the counters. -/
def Builder.new : Builder := { capture := [], prevMarkers := 0, gidx := 0 }

/-- One turn of the marker loop. -/
def Builder.addMarker (speed : SpeedArg) (b : Builder) : Builder :=
  { b with
    capture := b.capture ++ overflowMarker (b.gidx &&& 1) 0 (speedToIdx speed)
    gidx := b.gidx + 1 }

/-- `markers`: the turns whose `0xF0000` point `ticks` has passed. -/
def markersAt (ticks : Nat) : Int := max 0 (((ticks : Int) - 0xF0000 - 1) >>> (20 : Nat))

/-- One turn of the capture loop. -/
def Builder.addPacket (speed : SpeedArg) (b : Builder) (epb : Nat × List UInt8) : Option Builder :=
  let ticks := nsToTicks epb.1
  let markers := markersAt ticks
  let b₁ := Nat.repeat (Builder.addMarker speed) (markers - b.prevMarkers).toNat b
  (dataHeader epb.1 (b₁.gidx &&& 1) epb.2.length (some ticks)).map fun hdr =>
    { capture := b₁.capture ++ hdr ++ epb.2, prevMarkers := markers, gidx := b₁.gidx + 1 }

/-- `bytes([0x81, 0x00, 0x00][:pad])` behind a chunk of length `n`. -/
def padding (n : Nat) : List UInt8 := [0x81, 0x00, 0x00].take ((4 - n % 4) % 4)

/-- One data block. -/
def dataBlock (chunk : List UInt8) (seq : Nat) : List UInt8 :=
  let chunk := chunk ++ padding chunk.length
  blockHeader channelMask capturing (chunk.length / 4) seq ++ chunk

/-- The block loop, on what is left of the capture from `off` on. -/
def dataBlocks (rest : List UInt8) (seq : Nat) : List UInt8 :=
  if _h : rest.length = 0 then []
  else
    dataBlock (rest.take (cmdWords * 4)) seq ++ dataBlocks (rest.drop (cmdWords * 4)) (seq + 1)
termination_by rest.length
decreasing_by
  simp only [List.length_drop, cmdWords]
  omega

/-- The ACK loop. -/
def ackBlocks : List UInt8 :=
  (List.range ackCount).flatMap fun i => blockHeader channelMask 0 0 (ackSeqStart + i)

/-- `main`, from the packets of the sample to the bytes of the stream. -/
def makeFakeStream (speed : SpeedArg) (epbs : List (Nat × List UInt8)) : Option (List UInt8) :=
  (epbs.foldlM (Builder.addPacket speed) Builder.new).map fun b =>
    ackBlocks ++ dataBlocks b.capture dataSeqStart

/-! ## Times -/

/-- `ns_to_ticks` rounds up; its loop makes at most one turn. -/
theorem nsToTicks_eq (tsNs : Nat) : nsToTicks tsNs = (tsNs * 6 + 99) / 100 := by
  rw [nsToTicks, nsToTicksFrom]
  split
  · rw [nsToTicksFrom, if_neg (by omega)]
    omega
  · omega

theorem markersAt_eq (ticks : Nat) : markersAt ticks = max 0 (((ticks : Int) - 983041) / 1048576) := by
  rw [markersAt, Int.shiftRight_eq_div_pow]
  congr 2
  omega

theorem markersAt_mono {a b : Nat} (h : a ≤ b) : markersAt a ≤ markersAt b := by
  rw [markersAt_eq, markersAt_eq]
  omega

/-- The markers sent before a data frame leave its time as it is, or one
turn early: the turn the frame is in counts only behind `0xF0000`. -/
theorem markersAt_time (ticks : Nat) :
    (ticks % 2 ^ 20 : Nat) + 1048576 * markersAt ticks = ticks ∨
      (ticks % 2 ^ 20 : Nat) + 1048576 * markersAt ticks + 1048576 = ticks := by
  rw [markersAt_eq]
  omega

/-- `TOL_NS`. -/
def tolNs : Int := 100

/-- `WRAP_NS`. -/
def wrapNs : Int := 17476267

/-- `ts_close` of `tools/check_pcapng.py`. -/
def tsClose (ta tb : Int) : Prop :=
  min (min |ta - tb| |ta - tb - wrapNs|) |ta - tb + wrapNs| ≤ tolNs

instance (ta tb : Int) : Decidable (tsClose ta tb) := inferInstanceAs (Decidable (_ ≤ _))

/-- The time read back from a data frame is close to the packet's. -/
theorem tsClose_of_ticks {tsNs time : Nat}
    (h : time = nsToTicks tsNs ∨ time + 1048576 = nsToTicks tsNs) :
    tsClose tsNs (time * 100 / 6 : Nat) := by
  rw [nsToTicks_eq] at h
  rw [tsClose, wrapNs, tolNs, min_le_iff, min_le_iff, abs_le, abs_le, abs_le]
  rcases h with h | h
  · left; left
    omega
  · left; right
    omega

/-! ## The capture is well-formed frames -/

/-- The toggle bit of frame number `n`. -/
def toggleOf (n : Nat) : Bool := decide (n % 2 = 1)

theorem toggleBit_and_one (n : Nat) : toggleBit (n &&& 1) = if toggleOf n then 0x40 else 0 := by
  rw [Nat.and_one_is_mod, toggleBit, toggleOf]
  rcases Nat.mod_two_eq_zero_or_one n with h | h <;> simp [h]

theorem encodeFrames_concat (fs : List Frame) (f : Frame) (toggle : Bool) :
    encodeFrames toggle (fs ++ [f]) =
      encodeFrames toggle fs ++ f.encode (toggle ^^ toggleOf fs.length) := by
  induction fs generalizing toggle with
  | nil =>
      have h0 : (toggle ^^ toggleOf 0) = toggle := Bool.xor_false toggle
      rw [List.length_nil, h0, List.nil_append, encodeFrames, encodeFrames, encodeFrames,
        List.append_nil, List.nil_append]
  | cons g gs ih =>
      have hnext : (!toggle ^^ toggleOf gs.length) = (toggle ^^ toggleOf (gs.length + 1)) := by
        have h : toggleOf (gs.length + 1) = !toggleOf gs.length := by
          rw [toggleOf, toggleOf]
          rcases Nat.mod_two_eq_zero_or_one gs.length with h | h <;> simp [h, Nat.add_mod]
        rw [h]
        cases toggle <;> cases toggleOf gs.length <;> rfl
      rw [List.cons_append, encodeFrames, encodeFrames, ih, hnext, List.append_assoc,
        List.length_cons]

/-- The status frame of `overflow_marker`. -/
def markerFrame (speed : SpeedArg) : Frame :=
  .status ⟨true, 0xF0000, by decide⟩ (UInt8.ofNat ((speedToIdx speed &&& 3) <<< 6))

theorem markerFrame_encode (speed : SpeedArg) (n : Nat) :
    (markerFrame speed).encode (toggleOf n) = overflowMarker (n &&& 1) 0 (speedToIdx speed) := by
  rw [overflowMarker, toggleBit_and_one]
  cases toggleOf n <;> cases speed <;> rfl

/-- The data frame of a packet. -/
def packetFrame (ticks : Nat) (payload : List UInt8) (h : payload.length ≤ 1273) : Frame :=
  .data ⟨false, ticks % 2 ^ 20, Nat.mod_lt _ (by norm_num)⟩ 0 0 payload h

theorem head_bits (toggle : Bool) (high : Fin 16) :
    headByte true toggle false high =
      UInt8.ofNat (0x80 ||| (if toggle then 0x40 else 0) ||| 0 ||| high) := by
  revert toggle high
  decide

theorem sizeByte_zero (high : Fin 8) : sizeByte 0 high = UInt8.ofNat high := by
  revert high
  decide

theorem packetFrame_encode (tsNs ticks n : Nat) (payload : List UInt8)
    (h : payload.length ≤ 1273) :
    ∃ hdr, dataHeader tsNs (n &&& 1) payload.length (some ticks) = some hdr ∧
      (packetFrame ticks payload h).encode (toggleOf n) = hdr ++ payload := by
  have h20 : ticks &&& 0xFFFFF = ticks % 2 ^ 20 := Nat.and_two_pow_sub_one_eq_mod ticks 20
  have h8 : ∀ x, x &&& 0xFF = x % 2 ^ 8 := fun x => Nat.and_two_pow_sub_one_eq_mod x 8
  have h3 : ∀ x, x &&& 0x07 = x % 2 ^ 3 := fun x => Nat.and_two_pow_sub_one_eq_mod x 3
  have hlt : ticks % 2 ^ 20 / 2 ^ 16 < 16 := by omega
  have hsize : (7 + payload.length) / 2 ^ 8 < 8 := by omega
  refine ⟨[UInt8.ofNat (0x80 ||| (if toggleOf n then 0x40 else 0) ||| 0 ||| ticks % 2 ^ 20 / 2 ^ 16),
    UInt8.ofNat (ticks % 2 ^ 20 / 2 ^ 8 % 2 ^ 8), UInt8.ofNat (ticks % 2 ^ 20 % 2 ^ 8),
    UInt8.ofNat ((7 + payload.length) / 2 ^ 8), UInt8.ofNat ((7 + payload.length) % 2 ^ 8), 0, 0],
    ?_, ?_⟩
  · rw [dataHeader, if_pos (by omega), Option.getD_some, toggleBit_and_one, h20, h8, h8, h3, h8,
      Nat.shiftRight_eq_div_pow, Nat.shiftRight_eq_div_pow, Nat.shiftRight_eq_div_pow,
      Nat.mod_eq_of_lt (show _ < 2 ^ 3 from hsize)]
  · have hhead := head_bits (toggleOf n) ⟨_, hlt⟩
    have hhigh := sizeByte_zero ⟨_, hsize⟩
    simp only [packetFrame, Frame.encode, FrameClock.encode, dataHeaderSize]
    rw [hhead, hhigh]
    rfl

/-- The capture so far is the encoding of `fs`. -/
structure Builder.Encodes (b : Builder) (fs : List Frame) : Prop where
  capture_eq : b.capture = encodeFrames false fs
  gidx_eq : b.gidx = fs.length

theorem Builder.Encodes.frame {b : Builder} {fs : List Frame} (h : b.Encodes fs) (f : Frame) :
    encodeFrames false (fs ++ [f]) = b.capture ++ f.encode (toggleOf b.gidx) := by
  rw [encodeFrames_concat, h.capture_eq, h.gidx_eq, Bool.false_xor]

/-- The frames behind `n` turns of the marker loop. -/
theorem Builder.Encodes.markers {b : Builder} {fs : List Frame} (h : b.Encodes fs)
    (speed : SpeedArg) (n : Nat) :
    (Nat.repeat (Builder.addMarker speed) n b).Encodes
      (fs ++ List.replicate n (markerFrame speed)) := by
  induction n with
  | zero =>
      rw [List.replicate_zero, List.append_nil]
      exact h
  | succ n ih =>
      have hfs : fs ++ List.replicate (n + 1) (markerFrame speed) =
          fs ++ List.replicate n (markerFrame speed) ++ [markerFrame speed] := by
        rw [List.replicate_succ', List.append_assoc]
      refine ⟨?_, ?_⟩
      · rw [hfs, ih.frame, markerFrame_encode]
        rfl
      · show (Nat.repeat _ n b).gidx + 1 = _
        have hlen : ∀ l : List Frame, (l ++ [markerFrame speed]).length = l.length + 1 := by simp
        rw [ih.gidx_eq, hfs, hlen]

/-! ## The packets of the frames -/

/-- A packet of the sample and a packet read back. -/
structure Matches (epb packet : Nat × List UInt8) : Prop where
  payload : packet.2 = epb.2
  ts : tsClose epb.1 packet.1

theorem packetsOf_markers (speed : SpeedArg) (fs : List Frame) (n : Nat) :
    packetsOf .disabled (fs ++ List.replicate n (markerFrame speed)) = packetsOf .disabled fs := by
  induction n with
  | zero => rw [List.replicate_zero, List.append_nil]
  | succ n ih =>
      rw [List.replicate_succ', ← List.append_assoc, packetsOf_concat, ih, markerFrame, packetOf,
        List.append_nil]

/-- The capture loop has sent the packets `sent`, as the frames `fs`. -/
structure Builder.Carries (b : Builder) (sent : List (Nat × List UInt8)) (fs : List Frame) : Prop
    extends b.Encodes fs where
  turns : b.prevMarkers = fs.countP Frame.tsOverflow
  behind : ∀ t, (∀ e ∈ sent, e.1 ≤ t) → b.prevMarkers ≤ markersAt (nsToTicks t)
  packets : List.Forall₂ Matches sent (packetsOf .disabled fs)

theorem carries_new : Builder.new.Carries [] [] where
  capture_eq := rfl
  gidx_eq := rfl
  turns := rfl
  behind := fun _ _ => le_max_left _ _
  packets := .nil

/-- One turn of the capture loop: the missing markers, then the packet's
own frame, whose time is close to the packet's. -/
theorem Builder.Carries.addPacket {b : Builder} {sent : List (Nat × List UInt8)} {fs : List Frame}
    (h : b.Carries sent fs) (speed : SpeedArg) {e : Nat × List UInt8}
    (hlater : ∀ x ∈ sent, x.1 ≤ e.1) (hpos : 1 ≤ e.2.length) (hlen : e.2.length ≤ 1273) :
    ∃ b' fs', b.addPacket speed e = some b' ∧ b'.Carries (sent ++ [e]) fs' := by
  have hbehind := h.behind e.1 hlater
  have hmark := h.toEncodes.markers speed (markersAt (nsToTicks e.1) - b.prevMarkers).toNat
  generalize hgs : fs ++ List.replicate (markersAt (nsToTicks e.1) - b.prevMarkers).toNat
    (markerFrame speed) = gs at hmark
  generalize hb₁ : Nat.repeat (Builder.addMarker speed)
    (markersAt (nsToTicks e.1) - b.prevMarkers).toNat b = b₁ at hmark
  obtain ⟨hdr, hhdr, hframe⟩ := packetFrame_encode e.1 (nsToTicks e.1) b₁.gidx e.2 hlen
  -- the markers behind the packets before, and the ones missing for this one
  have hturns : (gs.countP Frame.tsOverflow : Int) = markersAt (nsToTicks e.1) := by
    have hone : Frame.tsOverflow (markerFrame speed) = true := rfl
    have hprev := h.turns
    rw [← hgs, List.countP_append, List.countP_replicate, hone, if_pos rfl]
    omega
  have hcount : (gs ++ [packetFrame (nsToTicks e.1) e.2 hlen]).countP Frame.tsOverflow =
      gs.countP Frame.tsOverflow := by
    rw [List.countP_append]
    rfl
  refine ⟨⟨b₁.capture ++ hdr ++ e.2, markersAt (nsToTicks e.1), b₁.gidx + 1⟩,
    gs ++ [packetFrame (nsToTicks e.1) e.2 hlen], ?_, ?_⟩
  · rw [Builder.addPacket, hb₁, hhdr]
    rfl
  · refine ⟨⟨?_, ?_⟩, ?_, ?_, ?_⟩
    · rw [hmark.frame, hframe, List.append_assoc]
    · rw [List.length_append, ← hmark.gidx_eq]
      rfl
    · rw [hcount]
      exact hturns.symm
    · intro t ht
      have hle : nsToTicks e.1 ≤ nsToTicks t := by
        have := ht e (by simp)
        rw [nsToTicks_eq, nsToTicks_eq]
        omega
      exact markersAt_mono hle
    · have hne : e.2 ≠ [] := List.ne_nil_of_length_pos hpos
      have htime : frameTime gs (packetFrame (nsToTicks e.1) e.2 hlen) =
          nsToTicks e.1 % 2 ^ 20 + 0x100000 * gs.countP Frame.tsOverflow := by
        rw [frameTime, hcount]
        rfl
      have hpacket : packetOf .disabled gs (packetFrame (nsToTicks e.1) e.2 hlen) =
          [(frameTime gs (packetFrame (nsToTicks e.1) e.2 hlen) * 100 / 6, e.2)] :=
        if_pos ⟨hne, rfl⟩
      have hpackets : packetsOf .disabled gs = packetsOf .disabled fs := by
        rw [← hgs, packetsOf_markers]
      rw [packetsOf_concat, hpackets, hpacket]
      refine List.rel_append h.packets (.cons ⟨rfl, tsClose_of_ticks ?_⟩ .nil)
      rw [htime]
      have := markersAt_time (nsToTicks e.1)
      omega

theorem Builder.Carries.addPackets (speed : SpeedArg) (rest : List (Nat × List UInt8)) {b : Builder}
    {sent : List (Nat × List UInt8)} {fs : List Frame} (h : b.Carries sent fs)
    (hlen : ∀ e ∈ rest, 1 ≤ e.2.length ∧ e.2.length ≤ 1273)
    (hsorted : (sent ++ rest).Pairwise fun a b => a.1 ≤ b.1) :
    ∃ b' fs', rest.foldlM (Builder.addPacket speed) b = some b' ∧
      b'.Carries (sent ++ rest) fs' := by
  induction rest generalizing b sent fs with
  | nil => exact ⟨b, fs, rfl, by rwa [List.append_nil]⟩
  | cons e rest ih =>
      have hlater : ∀ x ∈ sent, x.1 ≤ e.1 := by
        intro x hx
        exact (List.pairwise_append.mp hsorted).2.2 x hx e (by simp)
      obtain ⟨hpos, hle⟩ := hlen e (by simp)
      obtain ⟨b₁, fs₁, hstep, h₁⟩ := h.addPacket speed hlater hpos hle
      rw [← List.singleton_append, ← List.append_assoc] at hsorted ⊢
      obtain ⟨b', fs', hfold, h'⟩ := ih h₁ (fun x hx => hlen x (by simp [hx])) hsorted
      refine ⟨b', fs', ?_, h'⟩
      rw [List.singleton_append, List.foldlM_cons, hstep]
      exact hfold

/-- **The capture loop**: packets in order of time, with 1 to 1273 bytes
each, become well-formed frames that stand for packets close to them, with
fewer than `2 ^ 37` turns of the timestamp. -/
theorem capture_frames (speed : SpeedArg) {epbs : List (Nat × List UInt8)}
    (hts : ∀ e ∈ epbs, e.1 < 2 ^ 60) (hlen : ∀ e ∈ epbs, 1 ≤ e.2.length ∧ e.2.length ≤ 1273)
    (hsorted : epbs.Pairwise fun a b => a.1 ≤ b.1) :
    ∃ b fs, epbs.foldlM (Builder.addPacket speed) Builder.new = some b ∧
      b.capture = encodeFrames false fs ∧ fs.countP Frame.tsOverflow < 2 ^ 37 ∧
      List.Forall₂ Matches epbs (packetsOf .disabled fs) := by
  obtain ⟨b, fs, hfold, h⟩ := carries_new.addPackets speed epbs hlen hsorted
  refine ⟨b, fs, hfold, h.capture_eq, ?_, h.packets⟩
  have hturns := h.turns
  have hle := h.behind (2 ^ 60) (fun e he => Nat.le_of_lt (hts e he))
  have hmax : markersAt (nsToTicks (2 ^ 60)) < 2 ^ 37 := by
    rw [nsToTicks_eq]
    decide
  omega

/-! ## The stream is legal blocks -/

theorem crcBit_toNat (crc : UInt16) : crcBit crc.toNat = (Uhsif.crcBit crc).toNat := by
  have hmask : ∀ x, x &&& 0xFFFF = x % 2 ^ 16 := fun x => Nat.and_two_pow_sub_one_eq_mod x 16
  have hshift : (crc <<< 1).toNat = (crc.toNat <<< 1) % 2 ^ 16 := UInt16.toNat_shiftLeft crc 1
  have htop : crc &&& 0x8000 ≠ 0 ↔ crc.toNat &&& 0x8000 ≠ 0 := by
    rw [ne_eq, ← UInt16.toNat_inj, UInt16.toNat_and]
    rfl
  rw [crcBit, Uhsif.crcBit, hmask, hmask]
  by_cases h : crc &&& 0x8000 ≠ 0
  · rw [if_pos h, if_pos (htop.mp h), UInt16.toNat_xor, hshift, Nat.xor_mod_two_pow]
    rfl
  · rw [if_neg h, if_neg (fun hn => h (htop.mpr hn)), hshift]

theorem repeat_crcBit (n : Nat) (crc : UInt16) :
    Nat.repeat crcBit n crc.toNat = (Nat.repeat Uhsif.crcBit n crc).toNat := by
  induction n with
  | zero => rfl
  | succ n ih => rw [Nat.repeat, Nat.repeat, ih, crcBit_toNat]

theorem crcWord_toNat (w1 w2 w3 : UInt32) (i : Nat) :
    crcWord w1.toNat w2.toNat w3.toNat i =
      (if i < 4 then w1 else if i < 8 then w2 else w3).toNat := by
  rw [crcWord, Nat.shiftRight_eq_div_pow]
  by_cases h4 : i < 4
  · rw [if_pos h4, show i / 2 ^ 2 = 0 by omega]
    rfl
  · by_cases h8 : i < 8
    · rw [if_neg h4, if_pos h8, show i / 2 ^ 2 = 1 by omega]
      rfl
    · obtain ⟨k, hk⟩ : ∃ k, i / 2 ^ 2 = k + 2 := ⟨i / 2 ^ 2 - 2, by omega⟩
      rw [if_neg h4, if_neg h8, hk]
      rfl

theorem crcByte_shift (w : UInt32) (i : Nat) :
    ((w.toNat >>> ((i &&& 3) * 8)) &&& 0xFF) <<< 8 =
      (((w >>> (UInt32.ofNat (i % 4) * 8)) &&& 0xff).toUInt8.toUInt16 <<< 8).toNat := by
  have h3 : i &&& 3 = i % 4 := Nat.and_two_pow_sub_one_eq_mod i 2
  have hshift : (UInt32.ofNat (i % 4) * 8).toNat % 32 = i % 4 * 8 := by
    rw [UInt32.toNat_mul, UInt32.toNat_ofNat']
    show i % 4 % 2 ^ 32 * 8 % 2 ^ 32 % 32 = _
    omega
  have hlt : (w.toNat >>> (i % 4 * 8)) &&& 0xFF < 2 ^ 8 := Nat.and_lt_two_pow _ (by norm_num)
  rw [UInt16.toNat_shiftLeft, UInt8.toNat_toUInt16, UInt32.toNat_toUInt8, UInt32.toNat_and,
    UInt32.toNat_shiftRight, hshift, h3]
  show _ = (((w.toNat >>> (i % 4 * 8)) &&& 0xFF) % 2 ^ 8) <<< 8 % 2 ^ 16
  rw [Nat.mod_eq_of_lt hlt, Nat.shiftLeft_eq]
  omega

/-- The script's CRC is the plugin's. -/
theorem crc16_toNat (w1 w2 w3 : UInt32) :
    crc16 w1.toNat w2.toNat w3.toNat = (hdrCrc16 w1 w2 w3).toNat := by
  rw [crc16, hdrCrc16, show (0xFFFF : Nat) = UInt16.toNat 0xFFFF from rfl]
  apply List.foldl_hom UInt16.toNat
  intro crc i
  rw [crcWord_toNat, crcByte_shift, ← UInt16.toNat_xor, repeat_crcBit]
  rfl

/-- The block a header of the script starts. -/
def fakeBlock (capturing seq : Nat) (payload : List UInt8) (hwords : 4 ∣ payload.length)
    (hle : payload.length ≤ cmdWords * 4) : Block where
  w1 := 1
  w2 := UInt32.ofNat (((capturing &&& 1) <<< 18) ||| 2)
  seq := UInt8.ofNat seq
  words := payload.length / 4
  reserved := 0
  payload := payload
  w1_lt := Block.one_lt
  words_le := Nat.div_le_of_le_mul (by simpa [cmdWords, maxPayloadWords, Nat.mul_comm] using hle)
  reserved_lt := Block.zero_lt
  payload_length := (Nat.mul_div_cancel' hwords).symm

theorem fakeBlock_encode (capturing seq : Nat) (payload : List UInt8) (hwords : 4 ∣ payload.length)
    (hle : payload.length ≤ cmdWords * 4) :
    (fakeBlock capturing seq payload hwords hle).encode =
      blockHeader channelMask capturing (payload.length / 4) seq ++ payload := by
  have hw : payload.length / 4 < 2 ^ 12 := by
    simp only [cmdWords] at hle
    omega
  have hcap : (capturing &&& 1) <<< 18 ||| 2 < 2 ^ 32 := by
    apply Nat.or_lt_two_pow
    · rw [Nat.and_one_is_mod, Nat.shiftLeft_eq]
      omega
    · norm_num
  -- the script builds the words with masks and shifts, the block with sums
  have hw3 : ((seq &&& 0xFF) <<< 24) ||| ((payload.length / 4 &&& 0xFFF) <<< 12) =
      (UInt8.ofNat seq).toNat * 2 ^ 24 + payload.length / 4 * 2 ^ 12 + 0 := by
    have h8 : seq &&& 0xFF = seq % 2 ^ 8 := Nat.and_two_pow_sub_one_eq_mod seq 8
    have h12 : payload.length / 4 &&& 0xFFF = payload.length / 4 % 2 ^ 12 :=
      Nat.and_two_pow_sub_one_eq_mod _ 12
    rw [h8, h12, Nat.mod_eq_of_lt hw, Nat.or_comm, or_shiftLeft_eq_add, UInt8.toNat_ofNat',
      Nat.shiftLeft_eq]
    · omega
    · rw [Nat.shiftLeft_eq]
      omega
  rw [Block.encode, Block.header]
  generalize hb : fakeBlock capturing seq payload hwords hle = b
  have hpay : b.payload = payload := by rw [← hb]; rfl
  have h1 : b.w1 = 1 := by rw [← hb]; rfl
  have h2 : b.w2 = UInt32.ofNat (((capturing &&& 1) <<< 18) ||| 2) := by rw [← hb]; rfl
  have h3 : b.w3.toNat = ((seq &&& 0xFF) <<< 24) ||| ((payload.length / 4 &&& 0xFFF) <<< 12) := by
    rw [hw3, b.w3_toNat, ← hb]
    rfl
  have h2' : b.w2.toNat = ((0 &&& 1) <<< 19) ||| ((capturing &&& 1) <<< 18) |||
      ((0 &&& 3) <<< 16) ||| (0 &&& 0x7FF) ||| 2 := by
    rw [h2, UInt32.toNat_ofNat_of_lt' hcap]
    simp
  have hcrc := crc16_toNat b.w1 b.w2 b.w3
  rw [h1, h2', h3] at hcrc
  have h0 : b.w0.toNat = (crc16 (channelMask &&& 0xFFF)
      (((0 &&& 1) <<< 19) ||| ((capturing &&& 1) <<< 18) ||| ((0 &&& 3) <<< 16) |||
        (0 &&& 0x7FF) ||| 2)
      (((seq &&& 0xFF) <<< 24) ||| ((payload.length / 4 &&& 0xFFF) <<< 12)) <<< 16) |||
        blkMagic16 := by
    rw [b.w0_toNat, Nat.or_comm, or_shiftLeft_eq_add (by decide), Nat.add_comm, h1]
    exact congrArg (fun c => blkMagic16 + c * 2 ^ 16) hcrc.symm
  rw [blockHeader, packI, packI, packI, packI, ← h0, ← h2', ← h3, UInt32.ofNat_toNat,
    UInt32.ofNat_toNat, UInt32.ofNat_toNat, h1, hpay]
  rfl

theorem padding_length (n : Nat) : (padding n).length = (4 - n % 4) % 4 := by
  rw [padding, List.length_take]
  show min ((4 - n % 4) % 4) 3 = _
  omega

/-- A chunk that fills its last word is not padded. -/
theorem padding_nil {n : Nat} (h : n % 4 = 0) : padding n = [] := by
  rw [padding, h]
  rfl

theorem padding_mod {m n : Nat} (h : m % 4 = n % 4) : padding m = padding n := by
  rw [padding, padding, h]

/-- What the block loop makes of the rest of a capture: legal blocks with
consecutive numbers from `seq` on that carry it, with its padding. -/
structure Wraps (rest : List UInt8) (seq : Nat) (bs : List Block) : Prop where
  encode_eq : dataBlocks rest seq = Stream.encodeAll bs
  payload_eq : (bs.map Block.payload).flatten = rest ++ padding rest.length
  chain : bs.IsChain fun a b => b.seq = a.seq + 1
  first : ∀ b ∈ bs.head?, b.seq = UInt8.ofNat seq
  words : ∀ b ∈ bs, b.words ≠ 0

theorem dataBlock_encode (chunk : List UInt8) (hne : chunk.length ≠ 0)
    (hle : chunk.length ≤ cmdWords * 4) (seq : Nat) :
    ∃ b : Block, dataBlock chunk seq = b.encode ∧ b.payload = chunk ++ padding chunk.length ∧
      b.seq = UInt8.ofNat seq ∧ b.words ≠ 0 := by
  have hlen : (chunk ++ padding chunk.length).length =
      chunk.length + (4 - chunk.length % 4) % 4 := by
    rw [List.length_append, padding_length]
  have hwords : 4 ∣ (chunk ++ padding chunk.length).length := by
    rw [hlen]
    omega
  have hfit : (chunk ++ padding chunk.length).length ≤ cmdWords * 4 := by
    rw [hlen]
    simp only [cmdWords] at hle ⊢
    omega
  refine ⟨fakeBlock capturing seq (chunk ++ padding chunk.length) hwords hfit, ?_, rfl, rfl, ?_⟩
  · rw [fakeBlock_encode]
    rfl
  · show (chunk ++ padding chunk.length).length / 4 ≠ 0
    rw [hlen]
    omega

/-- **The block loop.** By its own recursion; only the last chunk is
padded, all others fill their words. -/
theorem dataBlocks_wraps (rest : List UInt8) (seq : Nat) : ∃ bs, Wraps rest seq bs := by
  fun_induction dataBlocks rest seq with
  | case1 rest seq h =>
      have hnil : rest = [] := List.length_eq_zero_iff.mp h
      subst hnil
      exact ⟨[], by rw [dataBlocks]; rfl, rfl, .nil, by simp, by simp⟩
  | case2 rest seq h ih =>
      obtain ⟨bs, hw⟩ := ih
      have hpos : cmdWords * 4 = 16368 := rfl
      obtain ⟨b, henc, hpay, hseq, hwords⟩ := dataBlock_encode (rest.take (cmdWords * 4))
        (by rw [List.length_take]; omega) (by rw [List.length_take]; omega) seq
      refine ⟨b :: bs, ?_, ?_, ?_, ?_, ?_⟩
      · rw [dataBlocks, dif_neg h, henc, hw.encode_eq, Stream.encodeAll_cons]
      · rw [List.map_cons, List.flatten_cons, hpay, hw.payload_eq, List.length_take,
          List.length_drop]
        by_cases hlast : rest.length ≤ cmdWords * 4
        · -- the last chunk
          rw [List.take_of_length_le hlast, List.drop_of_length_le hlast, Nat.min_eq_right hlast,
            Nat.sub_eq_zero_of_le hlast, padding_nil (n := 0) rfl, List.append_nil, List.append_nil]
        · rw [Nat.min_eq_left (by omega), padding_nil (n := cmdWords * 4) rfl, List.append_nil,
            ← List.append_assoc, List.take_append_drop,
            padding_mod (m := rest.length - cmdWords * 4) (n := rest.length) (by omega)]
      · rw [List.isChain_cons]
        refine ⟨?_, hw.chain⟩
        intro b' hb'
        rw [hw.first b' hb', hseq, UInt8.ofNat_add]
        rfl
      · intro b' hb'
        cases hb'
        exact hseq
      · intro b' hb'
        rcases List.mem_cons.mp hb' with rfl | hb'
        · exact hwords
        · exact hw.words b' hb'

/-- ACK block number `i`. -/
def ackAt (i : Nat) : Block := fakeBlock 0 (ackSeqStart + i) [] (dvd_zero 4) (Nat.zero_le _)

theorem ackBlocks_encode : ackBlocks = Stream.encodeAll ((List.range ackCount).map ackAt) := by
  have hack : ∀ i, (ackAt i).encode = blockHeader channelMask 0 0 (ackSeqStart + i) := by
    intro i
    rw [ackAt, fakeBlock_encode, List.append_nil]
    rfl
  rw [ackBlocks, Stream.encodeAll, List.map_map, List.flatMap_def]
  exact congrArg List.flatten (List.map_congr_left fun i _ => (hack i).symm)

end UsbSniffer.FakeStream
