import UsbSniffer.Packet.Frames

/-!
# Frame alignment behind a header error

A header with a wrong toggle or zero bit is reported, and `desync_error`
resets the frame assembler: "the next header starts a fresh walk". But
`capture_sm` goes on behind `check_header` with the fields just reset.
For a data frame that is harmless: its own size field follows. A status
frame has lost its `capture_status` by then and is taken for a data
frame, with byte 4 of a frame long gone in its size field
(`staleSize`). `frames_aligned_iff` says exactly when that breaks the
alignment.
-/

namespace UsbSniffer

open Packet in
/-- A complete frame of legal length, whatever its toggle and zero bits:
four bytes of status, or a data header with the payload its size field
announces. -/
inductive RawFrame where
  | status (b0 b1 b2 b3 : UInt8) (kind : startsStatus b0 = true)
  | data (b0 b1 b2 b3 b4 b5 b6 : UInt8) (payload : List UInt8) (kind : startsStatus b0 = false)
      (size_eq : (b3 &&& 0x7).toNat * 256 + b4.toNat = dataHeaderSize + payload.length)
      (size_le : dataHeaderSize + payload.length ≤ maxDataSize)

namespace RawFrame

def bytes : RawFrame → List UInt8
  | .status b0 b1 b2 b3 _ => [b0, b1, b2, b3]
  | .data b0 b1 b2 b3 b4 b5 b6 payload _ _ _ => [b0, b1, b2, b3, b4, b5, b6] ++ payload

def isStatus : RawFrame → Bool
  | .status _ _ _ _ _ => true
  | .data _ _ _ _ _ _ _ _ _ _ _ => false

end RawFrame

namespace Packet

/-- The boundary between two frames. -/
structure Aligned (p : Packet UInt8) : Prop where
  header : p.captureHeader = true
  dataPtr : p.captureDataPtr = 0

/-- The packets written so far. -/
def packets (p : Packet UInt8) : List (Nat × List UInt8) := p.out.filterMap Record.packet

/-- What a frame should do: the parser is at a boundary again, so the
bytes that follow start a frame of their own, and a status frame writes
no packet. -/
def Keeps (p : Packet UInt8) (f : RawFrame) : Prop :=
  Aligned (p.feed f.bytes) ∧ (f.isStatus = true → (p.feed f.bytes).packets = p.packets)

/-- `check_header` lets a frame with this first byte pass. -/
def HeaderOk (p : Packet UInt8) (b0 : UInt8) : Prop :=
  flag b0 0x40 = p.captureToggle ∧ flag b0 0x20 = 0

instance (p : Packet UInt8) (b0 : UInt8) : Decidable (p.HeaderOk b0) :=
  inferInstanceAs (Decidable (_ ∧ _))

/-- The size field of a status frame that is taken for a data frame: its
own fourth byte, and whatever an earlier frame left in
`capture_data[4]`. -/
def staleSize (p : Packet UInt8) (b3 : UInt8) : Nat :=
  (b3 &&& 0x7).toNat * 256 + (p.byteAt 4).toNat

/-- The condition on a frame and the state before it: the header of a
status frame passes, or the stale size announces no payload. -/
def Harmless (p : Packet UInt8) : RawFrame → Prop
  | .status b0 _ _ b3 _ =>
      p.HeaderOk b0 ∨ p.staleSize b3 ≤ dataHeaderSize ∨ maxDataSize < p.staleSize b3
  | .data _ _ _ _ _ _ _ _ _ _ _ => True

/-! ## What writes no packet -/

theorem InfoOnly.packets {P : Msg → Prop} {p p' : Packet UInt8} (h : InfoOnly P p p') :
    p'.packets = p.packets := by
  obtain ⟨w, t, s, rfl, -⟩ := h
  rw [Packet.packets, Packet.packets, List.filterMap_append, filterMap_packet_info,
    List.append_nil]

theorem packets_captureInfo (p : Packet UInt8) (ts : UInt64) (m : Msg) :
    (captureInfo p ts m).packets = p.packets :=
  (InfoOnly.captureInfo (P := fun _ => True) (fun _ _ => trivial) trivial p ts).packets

theorem packets_lineStateEvent (p : Packet UInt8) : p.lineStateEvent.packets = p.packets :=
  (InfoOnly.lineStateEvent (P := fun _ => True) (fun _ _ => trivial) p).packets

/-- A group that is given up leaves nothing to flush but its count. -/
theorem packets_countGroup (p : Packet UInt8) (limit : Nat) :
    (p.countGroup limit).packets = p.packets := by
  rw [countGroup]
  split
  · rw [stopFolding]
    split
    · rfl
    · rw [noteFolded]
      split
      · rfl
      · exact packets_captureInfo _ _ _
  · rfl

theorem packets_checkCaptureLimit (p : Packet UInt8) :
    p.checkCaptureLimit.packets = p.packets := by
  rw [checkCaptureLimit]
  split
  · exact packets_captureInfo p.limitDown _ _
  · rfl

theorem packets_keepaliveEvent (p : Packet UInt8) (ts : UInt64) (delta : Int) :
    (p.keepaliveEvent ts delta).packets = p.packets := by
  rw [keepaliveEvent]
  split
  · rfl
  · rw [packets_checkCaptureLimit]
    split
    · exact packets_captureInfo p ts _
    · split
      · exact packets_countGroup p _
      · rfl

theorem packets_statusTrigger (p : Packet UInt8) (trigger : Int) :
    (p.statusTrigger trigger).packets = p.packets := by
  rw [statusTrigger]
  split
  · rfl
  · rw [noteGate]
    split
    · rw [packets_captureInfo, packets_captureInfo]
      rfl
    · split
      · rw [packets_captureInfo, packets_captureInfo]
        rfl
      · exact packets_captureInfo _ _ _

theorem packets_statusVbus (p : Packet UInt8) (vbus : Int) :
    (p.statusVbus vbus).packets = p.packets := by
  rw [statusVbus]
  split
  · rfl
  · exact packets_captureInfo _ _ _

theorem packets_statusSpeed (p : Packet UInt8) (speed : CaptureSpeed) :
    (p.statusSpeed speed).packets = p.packets := by
  rw [statusSpeed]
  split
  · rfl
  · split
    · exact packets_captureInfo _ _ _
    · rfl

theorem packets_statusLs (p : Packet UInt8) (ls : Int) :
    (p.statusLs ls).packets = p.packets := by
  rw [statusLs, lineChange]
  split
  · rfl
  · split
    · exact packets_keepaliveEvent _ _ _
    · exact packets_lineStateEvent { p with captureLs := ls }

/-- **`status_event` writes no packet**, folding or not. -/
theorem packets_statusEvent (p : Packet UInt8) (ls vbus trigger : Int) (speed : CaptureSpeed) :
    (p.statusEvent ls vbus trigger speed).packets = p.packets := by
  rw [statusEvent, packets_statusLs, packets_statusSpeed, packets_statusVbus,
    packets_statusTrigger]

/-! ## A complete header -/

/-- What the part common to both frame types leaves: the header phase and
the buffer are untouched, and the frame is still a status frame only if
its header passed. -/
structure Checked (q p : Packet UInt8) : Prop where
  header : p.captureHeader = true
  data : p.captureData = q.captureData
  status : p.captureStatus = (q.captureStatus && decide (q.HeaderOk (q.byteAt 0)))
  running : p.done = q.done
  packets_eq : p.packets = q.packets

theorem Checked.clock {q p : Packet UInt8} (h : Checked q p) : Checked q p.headerClock :=
  ⟨h.header, h.data, h.status, h.running, h.packets_eq⟩

theorem Checked.timeout {q p : Packet UInt8} (h : Checked q p) : Checked q p.headerTimeout := by
  rw [headerTimeout]
  split
  · obtain ⟨w, t, s, he, hw⟩ :=
      InfoOnly.timeoutEvent (P := fun _ => True) (fun _ _ => trivial) trivial p
    have hpk := (show InfoOnly (fun _ => True) p p.timeoutEvent from ⟨w, t, s, he, hw⟩).packets
    have hpk' := hpk.trans h.packets_eq
    rw [he] at hpk' ⊢
    exact ⟨h.header, h.data, h.status, h.running, hpk'⟩
  · exact h

theorem checked_headerCommon {q : Packet UInt8} (hh : q.captureHeader = true) :
    Checked q q.headerCommon := by
  have hcheck : Checked q
      (q.checkHeader (flag (q.byteAt 0) 0x40) (flag (q.byteAt 0) 0x20)) := by
    by_cases hok : q.HeaderOk (q.byteAt 0)
    · have heq : q.checkHeader (flag (q.byteAt 0) 0x40) (flag (q.byteAt 0) 0x20) = q := if_pos hok
      rw [heq]
      exact ⟨hh, rfl, by simp [hok], rfl, rfl⟩
    · obtain ⟨r, hr, he⟩ := checkHeader_bad hok
      have hpk := hr.packets
      obtain ⟨w, t, s, rfl, -⟩ := hr
      rw [he]
      exact ⟨rfl, rfl, by simp [hok, resetFrame], rfl, hpk⟩
  exact hcheck.clock.timeout

/-- The data branch at a boundary: misaligned exactly by a size field that
announces a payload. -/
theorem aligned_dataHeader_iff (p : Packet UInt8) :
    Aligned p.dataHeader ↔ p.headerSize ≤ dataHeaderSize ∨ maxDataSize < p.headerSize := by
  rw [dataHeader]
  split
  · rename_i hsize
    obtain ⟨q, -, he⟩ := checkDataSize_eq hsize (p := p)
    rw [he]
    refine iff_of_true ⟨rfl, rfl⟩ ?_
    omega
  · rename_i hsize
    have hiff : Aligned p.startPayload ↔ (p.headerSize : Int) - dataHeaderSize = 0 :=
      ⟨fun ha => of_decide_eq_true ha.header, fun h0 => ⟨decide_eq_true h0, rfl⟩⟩
    rw [hiff]
    omega

theorem packets_dataHeader (p : Packet UInt8) : p.dataHeader.packets = p.packets := by
  rw [dataHeader]
  split
  · rename_i hsize
    obtain ⟨q, hq, he⟩ := checkDataSize_eq hsize (p := p)
    rw [he]
    exact hq.packets
  · rfl

/-! ## One frame -/

theorem byteAt_withHeader_zero (p : Packet UInt8) (b : UInt8) (bs : List UInt8) :
    (p.withHeader b bs).byteAt 0 = b :=
  storeBytes_get p.captureData (b :: bs) ⟨0, Nat.zero_lt_succ _⟩

/-- **A status frame** keeps the alignment exactly if its header passes
or the stale size announces no payload. -/
theorem keeps_status_iff {p : Packet UInt8} (hd : p.done = false) (ha : Aligned p)
    (b0 b1 b2 b3 : UInt8) (kind : startsStatus b0 = true) :
    p.Keeps (.status b0 b1 b2 b3 kind) ↔ p.Harmless (.status b0 b1 b2 b3 kind) := by
  have hlen : [b1, b2, b3].length + 1 = headerLength b0 := by
    rw [headerLength, if_pos kind]
    rfl
  have hfeed := feed_header hd ha.header ha.dataPtr b0 [b1, b2, b3] hlen
  have hc := checked_headerCommon (q := p.withHeader b0 [b1, b2, b3]) ha.header
  have hb0 := byteAt_withHeader_zero p b0 [b1, b2, b3]
  have hst := hc.status
  rw [hb0, show (p.withHeader b0 [b1, b2, b3]).captureStatus = true from kind,
    Bool.true_and] at hst
  rw [Keeps, RawFrame.bytes, hfeed, headerDone, Harmless]
  by_cases hok : p.HeaderOk b0
  · -- the header passes: the status event, back at the boundary
    rw [if_pos (hst.trans (decide_eq_true hok)), statusHeader]
    refine iff_of_true ⟨⟨?_, rfl⟩, fun _ => ?_⟩ (Or.inl hok)
    · have hs := signalled_statusEvent (p.withHeader b0 [b1, b2, b3]).headerCommon
        ((p.withHeader b0 [b1, b2, b3]).headerCommon.byteAt 3 &&& 0x0f).toNat
        (flag ((p.withHeader b0 [b1, b2, b3]).headerCommon.byteAt 3) 0x10)
        (flag ((p.withHeader b0 [b1, b2, b3]).headerCommon.byteAt 3) 0x20)
        (speedField ((p.withHeader b0 [b1, b2, b3]).headerCommon.byteAt 3))
      exact (congrArg Assembler.header hs.assembler_eq).trans hc.header
    · exact (packets_statusEvent _ _ _ _ _).trans hc.packets_eq
  · -- taken for a data frame, with a size field half its own
    have hbad : (p.withHeader b0 [b1, b2, b3]).headerCommon.captureStatus ≠ true := by
      rw [hst]
      exact fun h => hok (of_decide_eq_true h)
    have hsize : (p.withHeader b0 [b1, b2, b3]).headerCommon.headerSize = p.staleSize b3 := by
      have h3 : (p.withHeader b0 [b1, b2, b3]).captureData 3 = b3 := by
        simp [withHeader, storeBytes]
      have h4 : (p.withHeader b0 [b1, b2, b3]).captureData 4 = p.captureData 4 := by
        simp [withHeader, storeBytes]
      rw [headerSize, byteAt, byteAt, hc.data, h3, h4]
      rfl
    rw [if_neg hbad, aligned_dataHeader_iff, hsize]
    have hpk := (packets_dataHeader (p.withHeader b0 [b1, b2, b3]).headerCommon).trans
      hc.packets_eq
    constructor
    · rintro ⟨hle, -⟩
      exact Or.inr hle
    · rintro (habs | hle)
      · exact absurd habs hok
      · exact ⟨hle, fun _ => hpk⟩

theorem aligned_payloadDone (p : Packet UInt8) : Aligned p.payloadDone := by
  have he := emitted_dataEvent { p with captureHeader := true }
  exact ⟨congrArg Assembler.header he.assembler_eq, rfl⟩

/-- **A data frame** keeps the alignment whatever its header looks
like. -/
theorem keeps_data {p : Packet UInt8} (hd : p.done = false) (ha : Aligned p)
    (b0 b1 b2 b3 b4 b5 b6 : UInt8) (payload : List UInt8) (kind : startsStatus b0 = false)
    (size_eq : (b3 &&& 0x7).toNat * 256 + b4.toNat = dataHeaderSize + payload.length)
    (size_le : dataHeaderSize + payload.length ≤ maxDataSize) :
    p.Keeps (.data b0 b1 b2 b3 b4 b5 b6 payload kind size_eq size_le) := by
  have hlen : [b1, b2, b3, b4, b5, b6].length + 1 = headerLength b0 := by
    rw [headerLength, if_neg (by simp [kind])]
    rfl
  have hfeed := feed_header hd ha.header ha.dataPtr b0 [b1, b2, b3, b4, b5, b6] hlen
  have hc := checked_headerCommon (q := p.withHeader b0 [b1, b2, b3, b4, b5, b6]) ha.header
  have hst : (p.withHeader b0 [b1, b2, b3, b4, b5, b6]).headerCommon.captureStatus ≠ true := by
    rw [hc.status, show (p.withHeader b0 [b1, b2, b3, b4, b5, b6]).captureStatus = false from kind]
    simp
  have hsize : (p.withHeader b0 [b1, b2, b3, b4, b5, b6]).headerCommon.headerSize =
      dataHeaderSize + payload.length := by
    have h3 : (p.withHeader b0 [b1, b2, b3, b4, b5, b6]).captureData 3 = b3 := by
      simp [withHeader, storeBytes]
    have h4 : (p.withHeader b0 [b1, b2, b3, b4, b5, b6]).captureData 4 = b4 := by
      simp [withHeader, storeBytes]
    rw [headerSize, byteAt, byteAt, hc.data, h3, h4]
    exact size_eq
  have hdone : (p.feed [b0, b1, b2, b3, b4, b5, b6]) =
      (p.withHeader b0 [b1, b2, b3, b4, b5, b6]).headerCommon.startPayload := by
    rw [hfeed, headerDone, if_neg hst, dataHeader, if_neg (by rw [hsize]; omega)]
  refine ⟨?_, fun h => absurd h (by simp [RawFrame.isStatus])⟩
  rw [RawFrame.bytes, feed_append, hdone]
  by_cases hnil : payload = []
  · -- no payload: the header phase goes on
    subst hnil
    rw [feed_nil]
    refine ⟨?_, rfl⟩
    show decide ((Packet.headerSize _ : Int) - dataHeaderSize = 0) = true
    rw [hsize]
    rfl
  · have hpos : 0 < payload.length := List.length_pos_iff.mpr hnil
    have hrun : (p.withHeader b0 [b1, b2, b3, b4, b5, b6]).headerCommon.startPayload.done = false :=
      hc.running.trans hd
    rw [feed_payload hrun ?_ rfl hnil ?_]
    · exact aligned_payloadDone _
    · show decide ((Packet.headerSize _ : Int) - dataHeaderSize = 0) = false
      rw [hsize]
      simpa using hnil
    · show (payload.length : Int) = (Packet.headerSize _ : Int) - dataHeaderSize
      rw [hsize]
      omega

theorem keeps_iff {p : Packet UInt8} (hd : p.done = false) (ha : Aligned p) (f : RawFrame) :
    p.Keeps f ↔ p.Harmless f := by
  cases f with
  | status b0 b1 b2 b3 kind => exact keeps_status_iff hd ha b0 b1 b2 b3 kind
  | data b0 b1 b2 b3 b4 b5 b6 payload kind size_eq size_le =>
      exact iff_of_true (keeps_data hd ha b0 b1 b2 b3 b4 b5 b6 payload kind size_eq size_le)
        trivial

/-! ## Runs of frames -/

/-- Every frame of the run that is fed before the capture is done has the
property `C`, in the state it is fed to. -/
def EachFrame (C : Packet UInt8 → RawFrame → Prop) : Packet UInt8 → List RawFrame → Prop
  | _, [] => True
  | p, f :: fs => p.done = false → C p f ∧ EachFrame C (p.feed f.bytes) fs

/-- **Frame alignment survives a run of frames exactly if every frame of
it is harmless** in the state it meets, from any frame boundary on. -/
theorem frames_aligned_iff (p : Packet UInt8) (ha : Aligned p) (fs : List RawFrame) :
    EachFrame Keeps p fs ↔ EachFrame Harmless p fs := by
  induction fs generalizing p with
  | nil => exact Iff.rfl
  | cons f fs ih =>
      rw [EachFrame, EachFrame]
      refine forall_congr' fun hd => ?_
      rw [keeps_iff hd ha f]
      refine and_congr_right fun hf => ?_
      -- the first frame is harmless, so the second starts at a boundary
      exact ih _ ((keeps_iff hd ha f).mpr hf).1

/-- A capture that has seen one data frame, of one byte. -/
def alignedStart : Packet UInt8 :=
  ((new { foldOpts with foldEmpty := false }).run [.announce]).feed
    [0x80, 0, 0, 0, 8, 0, 0, 0x69]

/-- The next frame has its toggle bit set, and this one has it clear. -/
def wrongToggle : RawFrame := .status 0 0 0 0 rfl

def rightToggle : RawFrame := .status 0x40 0 0 0 rfl

theorem frames_aligned_iff_rightToggle :
    Aligned alignedStart ∧
      (EachFrame Keeps alignedStart [rightToggle, wrongToggle] ↔
        EachFrame Harmless alignedStart [rightToggle, wrongToggle]) :=
  ⟨⟨rfl, rfl⟩, frames_aligned_iff alignedStart ⟨rfl, rfl⟩ [rightToggle, wrongToggle]⟩

/-- The status frame with the wrong toggle leaves the parser in a payload
phase, and the first byte of the next frame is written as a packet. -/
theorem wrongToggle_breaks_alignment :
    Aligned alignedStart ∧ alignedStart.done = false ∧ ¬ alignedStart.Keeps wrongToggle ∧
      (alignedStart.feed (wrongToggle.bytes ++ [0xc0])).packets =
        alignedStart.packets ++ [(0, [0xc0])] := by
  have hphase : (alignedStart.feed wrongToggle.bytes).captureHeader = false := by decide +kernel
  refine ⟨⟨rfl, rfl⟩, rfl, ?_, rfl⟩
  rintro ⟨ha, -⟩
  exact absurd ha.header (by simp [hphase])

end Packet

end UsbSniffer
