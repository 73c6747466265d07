import UsbSniffer.Gen1.Port

/-!
# Sessions of both engines

The frames of a session, one by one through `capture_callback` and
through `packet_feed`. Between two frames the engines are in one state
(`Between`), which remembers of the frames before what the next one
depends on: the toggle, the turns of the timestamp and the last change of
the line state.
-/

namespace UsbSniffer.Gen1

open Packet (storeBytes headerLength)

/-! ## Collecting a header or a payload -/

theorem captureCallback_append (c : Capture) (xs ys : List UInt8) :
    captureCallback c (xs ++ ys) = (captureCallback c xs).bind fun c => captureCallback c ys := by
  induction xs generalizing c with
  | nil => rfl
  | cons b xs ih =>
      rw [List.cons_append, captureCallback, captureCallback]
      cases captureSm c b with
      | error c' => rfl
      | ok c' => exact ih c'

theorem captureCallback_singleton (c : Capture) (b : UInt8) :
    captureCallback c [b] = captureSm c b := by
  rw [captureCallback]
  cases captureSm c b <;> rfl

/-- The rest of a header, or a payload: the bytes are stored, and the last
one completes it. -/
theorem captureCallback_rest {bs : List UInt8} {c : Capture}
    (hphase : c.captureHeader = true → c.captureDataPtr ≠ 0) (hne : bs ≠ [])
    (hlen : (c.captureDataPtr : Int) + bs.length = c.captureSize) :
    captureCallback c bs = frameStep
      { c with
        captureData := storeBytes c.captureData c.captureDataPtr bs
        captureDataPtr := c.captureDataPtr + bs.length } := by
  induction bs generalizing c with
  | nil => exact absurd rfl hne
  | cons b bs ih =>
      rw [List.length_cons, Nat.cast_succ] at hlen
      by_cases hbs : bs = []
      · subst hbs
        rw [captureCallback_singleton, captureSm, Packet.startFrame_inside hphase,
          Packet.storeByte, storeBytes, storeBytes, List.length_singleton]
      · -- not the last byte: the step stores it and nothing else
        have hpos : 0 < bs.length := List.length_pos_iff.mpr hbs
        have hstep : captureSm c b = .ok (c.storeByte b) := by
          rw [captureSm, Packet.startFrame_inside hphase, frameStep, if_pos]
          show ((c.captureDataPtr + 1 : Nat) : Int) < c.captureSize
          omega
        rw [captureCallback, hstep]
        refine (ih (c := c.storeByte b) ?_ hbs ?_).trans ?_
        · exact fun _ => Nat.succ_ne_zero _
        · show ((c.captureDataPtr + 1 : Nat) : Int) + bs.length = c.captureSize
          omega
        · simp only [Packet.storeByte, storeBytes, List.length_cons, Nat.add_assoc, Nat.add_comm 1]

/-- A whole header, from the boundary between two frames. -/
theorem captureCallback_header {c : Capture} (hh : c.captureHeader = true)
    (h0 : c.captureDataPtr = 0) (b : UInt8) (bs : List UInt8)
    (hlen : bs.length + 1 = headerLength b) :
    captureCallback c (b :: bs) = headerDone (c.withHeader b bs) := by
  have h1 := Packet.one_lt_headerLength b
  have hstart : c.startFrame b =
      { c with captureStatus := Packet.startsStatus b, captureSize := headerLength b } := by
    rw [Packet.startFrame, if_pos (by simp [hh, h0]), Packet.headerLength_cast]
  have hstep : captureSm c b = .ok ((c.startFrame b).storeByte b) := by
    rw [captureSm, frameStep, if_pos]
    rw [hstart]
    show ((c.captureDataPtr + 1 : Nat) : Int) < headerLength b
    omega
  have hne : bs ≠ [] := by
    intro hnil
    rw [hnil] at hlen
    simp only [List.length_nil] at hlen
    omega
  rw [captureCallback, hstep, hstart]
  refine (captureCallback_rest ?_ hne ?_).trans ?_
  · exact fun _ => Nat.succ_ne_zero _
  · show ((c.captureDataPtr + 1 : Nat) : Int) + bs.length = headerLength b
    omega
  · have hfull : 0 + 1 + bs.length = headerLength b := by omega
    simp only [Packet.storeByte, h0, hfull]
    rw [frameStep, if_neg (lt_irrefl _)]
    refine (if_pos hh).trans ?_
    simp only [Packet.withHeader, storeBytes]

/-- A whole payload, behind its header. -/
theorem captureCallback_payload {c : Capture} (hh : c.captureHeader = false)
    (h0 : c.captureDataPtr = 0) {bs : List UInt8} (hne : bs ≠ [])
    (hlen : bs.length = c.captureSize) :
    captureCallback c bs = payloadDone
      { c with
        captureData := storeBytes c.captureData 0 bs
        captureDataPtr := bs.length } := by
  have hphase : c.captureHeader = true → c.captureDataPtr ≠ 0 := by simp [hh]
  have hrest := captureCallback_rest hphase hne (by simp [h0, hlen])
  rw [h0, Nat.zero_add] at hrest
  rw [hrest, frameStep, if_neg (not_lt.mpr (le_of_eq hlen.symm))]
  exact if_neg (by simp [hh])

/-! ## Times and line states of frames -/

/-- `capture_ts_int` behind a frame. -/
def nextInt (tsInt : UInt64) (f : Frame) : UInt64 :=
  if f.tsOverflow then tsInt + 0x100000 else tsInt

/-- The decoded timestamp of a frame. -/
def decodedTs (tsInt : UInt64) (f : Frame) : UInt64 :=
  (nextInt tsInt f ||| UInt64.ofNat f.clock.ts) * 100 / 6

/-- The decoded timestamps of some frames. -/
def decodedTimes : UInt64 → List Frame → List UInt64
  | _, [] => []
  | tsInt, f :: fs => decodedTs tsInt f :: decodedTimes (nextInt tsInt f) fs

/-- The line state a frame leaves behind. -/
def lineAfter (ls : Int) : Frame → Int
  | .status _ flags => (flags &&& 0x0f).toNat
  | .data _ _ _ _ _ => ls

/-- The times at which the line state changes. -/
def lineChanges : Int → UInt64 → List Frame → List UInt64
  | _, _, [] => []
  | ls, tsInt, f :: fs =>
      (if ls = lineAfter ls f then [] else [decodedTs tsInt f]) ++
        lineChanges (lineAfter ls f) (nextInt tsInt f) fs

/-- One change of the line state less than `2 ^ 32` ns behind another. -/
def Soon (t t' : UInt64) : Prop := (t' - t).toNat < 2 ^ 32

instance : DecidableRel Soon := fun t t' => inferInstanceAs (Decidable ((t' - t).toNat < 2 ^ 32))

/-! ## Between two frames -/

/-- The state between two frames: `last` is the time of the last change
of the line state. -/
structure Between (toggle : Bool) (tsInt : UInt64) (ls : Int) (last : Option UInt64)
    (p : Packet UInt8) : Prop where
  ordered : p.Ordered
  header : p.captureHeader = true
  dataPtr : p.captureDataPtr = 0
  toggle_eq : p.captureToggle = toggle.toNat
  tsInt_eq : p.captureTsInt = tsInt
  ls_eq : p.captureLs = ls
  saved : p.captureSavedLs = lsSe0 → last = some p.captureSavedTs

/-- What of it is still so when the header `b :: bs` of the frame `f` is
taken over. -/
structure Taken (toggle : Bool) (tsInt : UInt64) (f : Frame) (b : UInt8) (bs : List UInt8)
    (p r : Packet UInt8) : Prop where
  header : r.captureHeader = true
  toggle_eq : r.captureToggle = (!toggle).toNat
  tsInt_eq : r.captureTsInt = nextInt tsInt f
  ts_eq : r.captureTs = decodedTs tsInt f
  status_eq : r.captureStatus = Packet.startsStatus b
  data_eq : r.captureData = storeBytes p.captureData 0 (b :: bs)
  line : SameLine p r
  shared : Shared r

section Header

variable {toggle isData : Bool} {tsInt : UInt64} {ls : Int} {last : Option UInt64}
  {p : Packet UInt8} {f : Frame} {b : UInt8} {bs : List UInt8}

/-- The clock of a frame as `capture_sm` reads it. -/
theorem headerClock_decoded (htsInt : p.captureTsInt = tsInt)
    (hbytes : Packet.ClockBytes (p.withHeader b bs) f.clock isData toggle) :
    (p.withHeader b bs).headerClock.captureTsInt = nextInt tsInt f ∧
      (p.withHeader b bs).headerClock.captureTs = decodedTs tsInt f := by
  have hbit := (headByte_bits isData toggle f.clock.tsOverflow
    ⟨_, Packet.clock_high_lt f.clock⟩).2.2.2.1
  rw [← hbytes.head] at hbit
  have hnext : (p.withHeader b bs).nextTsInt = nextInt tsInt f := by
    rw [Packet.nextTsInt, nextInt, ← htsInt]
    by_cases ho : f.clock.tsOverflow = true
    · rw [if_pos (hbit.mpr ho), if_pos (show f.tsOverflow = true from ho)]
      rfl
    · rw [if_neg (fun hne => ho (hbit.mp hne)), if_neg (show ¬ f.tsOverflow = true from ho)]
      rfl
  have hts : (p.withHeader b bs).headerTs = UInt64.ofNat f.clock.ts := by
    rw [← Packet.headerTs_toNat hbytes, UInt64.ofNat_toNat]
  refine ⟨hnext, ?_⟩
  show ((p.withHeader b bs).nextTsInt ||| (p.withHeader b bs).headerTs) * 100 / 6 = _
  rw [hnext, hts]
  rfl

/-- The header of a well-formed frame is taken over. -/
theorem Between.taken (h : Between toggle tsInt ls last p) (hs : Shared p)
    (hbytes : Packet.ClockBytes (p.withHeader b bs) f.clock isData toggle) :
    Taken toggle tsInt f b bs p (p.withHeader b bs).headerCommon := by
  obtain ⟨htsInt, hts⟩ := headerClock_decoded h.tsInt_eq hbytes
  obtain ⟨-, hflag, hzero, -, -⟩ :=
    headByte_bits isData toggle f.clock.tsOverflow ⟨_, Packet.clock_high_lt f.clock⟩
  rw [← hbytes.head] at hflag hzero
  have hcommon : (p.withHeader b bs).headerCommon =
      (p.withHeader b bs).headerClock.headerTimeout := by
    rw [Packet.headerCommon, Packet.checkHeader, if_pos ⟨hflag.trans h.toggle_eq.symm, hzero⟩]
  obtain ⟨hc, -⟩ := Packet.chatter_headerTimeout (p.withHeader b bs).headerClock
  have hclock : SameLine p (p.withHeader b bs).headerClock := ⟨rfl, rfl, .inl rfl⟩
  have hshared : Shared (p.withHeader b bs).headerClock := hs.congr rfl hs.texts
  rw [hcommon]
  refine ⟨?_, ?_, ?_, ?_, ?_, ?_, hclock.trans (sameLine_headerTimeout _),
    hshared.headerTimeout⟩
  · exact (congrArg Packet.Assembler.header hc.assembler_eq).trans h.header
  · refine (congrArg Packet.Assembler.toggle hc.assembler_eq).trans ?_
    show 1 - Packet.flag ((p.withHeader b bs).byteAt 0) 0x40 = (!toggle).toNat
    rw [hflag]
    cases toggle <;> rfl
  · exact (congrArg Packet.Assembler.tsInt hc.assembler_eq).trans htsInt
  · exact (congrArg Packet.Assembler.ts hc.assembler_eq).trans hts
  · exact congrArg Packet.Assembler.status hc.assembler_eq
  · exact congrArg Packet.Assembler.data hc.assembler_eq

/-- The header of a well-formed frame, through both engines. -/
theorem Between.headerDone (h : Between toggle tsInt ls last p) (hs : Shared p)
    (hbytes : Packet.ClockBytes (p.withHeader b bs) f.clock isData toggle)
    (hforward : p.captureTs ≤ decodedTs tsInt f)
    (hsize : Packet.startsStatus b = false → dataHeaderSize ≤ (p.withHeader b bs).headerSize ∧
      (p.withHeader b bs).headerSize ≤ maxDataSize)
    (hsoon : Packet.startsStatus b = true →
      ls ≠ ((p.withHeader b bs).byteAt 3 &&& 0x0f).toNat →
        ∀ t, last = some t → Soon t (decodedTs tsInt f)) :
    Agree (headerDone (p.withHeader b bs)) (p.withHeader b bs).headerDone ∧
      (p.withHeader b bs).headerDone.Ordered := by
  obtain ⟨-, hts⟩ := headerClock_decoded h.tsInt_eq hbytes
  obtain ⟨-, hflag, hzero, -, -⟩ :=
    headByte_bits isData toggle f.clock.tsOverflow ⟨_, Packet.clock_high_lt f.clock⟩
  rw [← hbytes.head] at hflag hzero
  have ho := h.ordered
  have hord : (p.withHeader b bs).Ordered := ho.congr rfl
  have hgood : GoodHeader (p.withHeader b bs) := by
    refine ⟨hflag.trans h.toggle_eq.symm, hzero, hts.symm ▸ hforward, hsize, ?_⟩
    intro hst hne hse0
    rw [hts]
    exact hsoon hst (h.ls_eq ▸ hne) _ (h.saved hse0)
  have hshared : Shared (p.withHeader b bs) := hs.congr rfl hs.texts
  refine ⟨headerDone_port hshared hord hgood, hord.headerDone ?_⟩
  rw [Packet.headerDone_ts, Packet.checkHeader, if_pos ⟨hgood.toggle, hgood.zeroBit⟩]
  exact hgood.forward

end Header

/-! ## The saved line state behind an event -/

theorem sameLine_checkCaptureLimit (p : Packet UInt8) : SameLine p p.checkCaptureLimit := by
  have hdown : SameLine p p.limitDown := ⟨rfl, rfl, .inl rfl⟩
  rw [Packet.checkCaptureLimit]
  split
  · have hinfo := hdown.trans (sameLine_captureInfo p.limitDown p.captureTs .captureLimitReached)
    exact ⟨hinfo.ls_eq, hinfo.savedTs_eq, hinfo.saved⟩
  · exact hdown

theorem sameLine_keepaliveEvent {p : Packet UInt8} (h : Shared p) (ts : UInt64) (delta : Int) :
    SameLine p (p.keepaliveEvent ts delta) := by
  have hfold : (!p.opts.foldEmpty) = true := by simp [h.unfolded]
  rw [Packet.keepaliveEvent, if_pos hfold]
  split
  · exact .refl p
  · exact (sameLine_captureInfo p ts .keepAlive).trans (sameLine_checkCaptureLimit _)

theorem sameLine_dataEvent {p : Packet UInt8} (h : Shared p) : SameLine p p.dataEvent := by
  have hline := h.lineStateEvent
  have hflush : p.lineStateEvent.dataFlush = p.lineStateEvent := by
    have hstop : p.lineStateEvent.stopFolding = p.lineStateEvent := by
      rw [Packet.stopFolding, if_pos ⟨hline.count, by rw [hline.buf]; rfl⟩]
    rw [Packet.dataFlush, hstop, ite_self]
  have hover : SameLine p p.lineStateEvent.noteOverflow := by
    rw [Packet.noteOverflow]
    split
    · exact (sameLine_lineStateEvent p).trans (sameLine_captureInfo _ _ _)
    · exact sameLine_lineStateEvent p
  have hprepare : SameLine p p.dataPrepare := by
    rw [Packet.dataPrepare, hflush, Packet.notePhyError]
    split
    · exact hover.trans (sameLine_captureInfo _ _ _)
    · exact hover
  have hunfolded : (p.dataPrepare.frameError || !p.dataPrepare.opts.foldEmpty) = true := by
    have hem : p.dataPrepare.opts.foldEmpty = p.opts.foldEmpty :=
      (Packet.emitted_dataPrepare p).foldEmpty
    simp [hem, h.unfolded]
  have hwrite : SameLine p p.dataPrepare.dataWrite := by
    rw [Packet.dataWrite, if_pos hunfolded]
    exact ⟨hprepare.ls_eq, hprepare.savedTs_eq, hprepare.saved⟩
  rw [Packet.dataEvent]
  split
  · exact .refl p
  · exact hwrite.trans (sameLine_checkCaptureLimit _)

/-- `status_event` takes over the line state; a saved one is the old one,
or began now. -/
theorem statusEvent_line {p : Packet UInt8} (h : Shared p) (ls vbus : Int) {bit : Nat}
    (hbit : bit ≤ 1) (speed : CaptureSpeed) :
    (p.statusEvent ls vbus bit speed).captureLs = ls ∧
      ((p.statusEvent ls vbus bit speed).captureSavedLs = lsSe0 →
        if p.captureLs = ls then
          p.captureSavedLs = lsSe0 ∧
            (p.statusEvent ls vbus bit speed).captureSavedTs = p.captureSavedTs
        else (p.statusEvent ls vbus bit speed).captureSavedTs = p.captureTs) := by
  obtain ⟨-, h₁⟩ := statusTrigger_port h hbit
  obtain ⟨-, h₂⟩ := statusVbus_port h₁ vbus
  obtain ⟨-, h₃⟩ := statusSpeed_port h₂ speed
  have hline := ((sameLine_statusTrigger p bit).trans (sameLine_statusVbus _ vbus)).trans
    (sameLine_statusSpeed _ speed)
  have hts : (((p.statusTrigger bit).statusVbus vbus).statusSpeed speed).captureTs = p.captureTs :=
    (((Packet.signalled_statusTrigger p bit).trans (Packet.signalled_statusVbus _ vbus)).trans
      (Packet.signalled_statusSpeed _ speed)).ts
  rw [Packet.statusEvent, Packet.statusLs, ← hline.ls_eq]
  generalize (((p.statusTrigger bit).statusVbus vbus).statusSpeed speed) = q at *
  by_cases hls : q.captureLs = ls
  · simp only [if_pos hls]
    refine ⟨hls, fun hse0 => ⟨?_, hline.savedTs_eq⟩⟩
    rcases hline.saved with hx | hx
    · exact hx ▸ hse0
    · rw [hx] at hse0
      exact absurd hse0 (by decide)
  · simp only [if_neg hls]
    rw [Packet.lineChange]
    split
    · -- a keep-alive: nothing is saved
      have hidle : Shared { q with captureLs := ls, captureSavedLs := lsInvalid } :=
        h₃.congr rfl h₃.texts
      have hk := sameLine_keepaliveEvent hidle q.captureSavedTs
        ({ q with captureLs := ls } : Packet UInt8).savedDelta
      refine ⟨hk.ls_eq, fun hse0 => ?_⟩
      have hnone : lsInvalid = lsSe0 := by
        rcases hk.saved with hx | hx
        · exact hx.symm.trans hse0
        · exact hx.symm.trans hse0
      exact absurd hnone (by decide)
    · have hevent := Packet.emitted_lineStateEvent ({ q with captureLs := ls } : Packet UInt8)
      exact ⟨congrArg Packet.Bus.ls hevent.bus_eq, fun _ => hevent.ts.trans hts⟩

/-! ## One frame -/

/-- The time of the last change of the line state, behind a frame. -/
def lastAfter (ls : Int) (tsInt : UInt64) (last : Option UInt64) (f : Frame) : Option UInt64 :=
  if ls = lineAfter ls f then last else some (decodedTs tsInt f)

/-- The engines agree on a frame, and are between two frames again. -/
structure Through (toggle : Bool) (tsInt : UInt64) (ls : Int) (last : Option UInt64) (f : Frame)
    (p : Packet UInt8) : Prop where
  agree : Agree (captureCallback p (f.encode toggle)) (p.feed (f.encode toggle))
  between : Between (!toggle) (nextInt tsInt f) (lineAfter ls f) (lastAfter ls tsInt last f)
    (p.feed (f.encode toggle))
  ts_eq : (p.feed (f.encode toggle)).captureTs = decodedTs tsInt f

section Frames

variable {toggle : Bool} {tsInt : UInt64} {ls : Int} {last : Option UInt64} {p : Packet UInt8}

theorem Between.status (h : Between toggle tsInt ls last p) (hs : Shared p) (clock : FrameClock)
    (flags : UInt8) (hforward : p.captureTs ≤ decodedTs tsInt (.status clock flags))
    (hsoon : ls ≠ lineAfter ls (.status clock flags) → ∀ t, last = some t →
      Soon t (decodedTs tsInt (.status clock flags))) :
    Through toggle tsInt ls last (.status clock flags) p := by
  obtain ⟨b, bs, hencode, hst, hlen, hbytes, hthird⟩ := Packet.status_bytes toggle clock flags
  have htaken := h.taken (f := .status clock flags) hs (hbytes p)
  have hflags : (p.withHeader b bs).byteAt 3 = flags := Packet.byteAt_stored rfl hthird
  have hbyte : (p.withHeader b bs).headerCommon.byteAt 3 = flags :=
    Packet.byteAt_stored htaken.data_eq hthird
  obtain ⟨hagree, hord⟩ := h.headerDone (f := .status clock flags) hs (hbytes p) hforward
    (fun hfalse => by rw [hst] at hfalse; cases hfalse)
    (fun _ hne => hsoon (by rw [hflags] at hne; exact hne))
  have hdone : (p.withHeader b bs).headerDone = (p.withHeader b bs).headerCommon.statusHeader := by
    rw [Packet.headerDone, htaken.status_eq, hst, if_pos rfl]
  rw [hdone] at hagree hord
  have hsig := Packet.signalled_statusEvent (p.withHeader b bs).headerCommon
    (flags &&& 0x0f).toNat (Packet.flag flags 0x10) (Packet.flag flags 0x20)
    (Packet.speedField flags)
  obtain ⟨hls, hsaved⟩ := statusEvent_line htaken.shared (flags &&& 0x0f).toNat
    (Packet.flag flags 0x10) (flag_le_one flags 0x20) (Packet.speedField flags)
  have hstatus : (p.withHeader b bs).headerCommon.statusOf =
      (p.withHeader b bs).headerCommon.statusEvent (flags &&& 0x0f).toNat (Packet.flag flags 0x10)
        (Packet.flag flags 0x20) (Packet.speedField flags) := by
    rw [Packet.statusOf, hbyte]
  have hfeed : p.feed ((Frame.status clock flags).encode toggle) =
      (p.withHeader b bs).headerCommon.statusHeader := by
    rw [hencode, Packet.feed_header hs.running h.header h.dataPtr b bs hlen, hdone]
  have hcall : captureCallback p ((Frame.status clock flags).encode toggle) =
      Gen1.headerDone (p.withHeader b bs) := by
    rw [hencode, captureCallback_header h.header h.dataPtr b bs hlen]
  -- the agreement, the state between the frames, and the time
  refine ⟨?_, ⟨?_, ?_, ?_, ?_, ?_, ?_, ?_⟩, ?_⟩ <;> rw [hfeed]
  · rw [hcall]
    exact hagree
  · exact hord
  all_goals rw [Packet.statusHeader, hstatus]
  · exact (congrArg Packet.Assembler.header hsig.assembler_eq).trans htaken.header
  · exact (congrArg Packet.Assembler.toggle hsig.assembler_eq).trans htaken.toggle_eq
  · exact (congrArg Packet.Assembler.tsInt hsig.assembler_eq).trans htaken.tsInt_eq
  · exact hls
  · intro hse0
    have hcase := hsaved hse0
    rw [htaken.line.ls_eq, h.ls_eq] at hcase
    rw [lastAfter, lineAfter]
    -- a line state that did not change keeps the time at which it began
    by_cases heq : ls = (flags &&& 0x0f).toNat
    · rw [if_pos heq] at hcase ⊢
      obtain ⟨hold, hts⟩ := hcase
      rcases htaken.line.saved with hx | hx
      · rw [h.saved (hx.symm.trans hold)]
        exact congrArg some (hts.trans htaken.line.savedTs_eq).symm
      · exact absurd (hx.symm.trans hold) (by decide)
    · rw [if_neg heq] at hcase ⊢
      exact congrArg some (hcase.trans htaken.ts_eq).symm
  · exact (congrArg Packet.Assembler.ts hsig.assembler_eq).trans htaken.ts_eq

theorem Between.data (h : Between toggle tsInt ls last p) (hs : Shared p) (clock : FrameClock)
    (flags : UInt8) (duration : UInt16) (payload : List UInt8)
    (hle : payload.length ≤ maxDataSize - dataHeaderSize)
    (hforward : p.captureTs ≤ decodedTs tsInt (.data clock flags duration payload hle)) :
    Through toggle tsInt ls last (.data clock flags duration payload hle) p := by
  obtain ⟨b, bs, hencode, hst, hlen, hbytes, hsize⟩ :=
    Packet.data_bytes toggle clock flags duration payload hle
  have hlegal : dataHeaderSize ≤ dataHeaderSize + payload.length ∧
      dataHeaderSize + payload.length ≤ maxDataSize := by
    have hle' : payload.length ≤ 1273 := hle
    show 7 ≤ 7 + payload.length ∧ 7 + payload.length ≤ 1280
    omega
  have htaken := h.taken (f := .data clock flags duration payload hle) hs (hbytes p)
  obtain ⟨hagree, hord⟩ := h.headerDone (f := .data clock flags duration payload hle) hs
    (hbytes p) hforward (fun _ => by rw [hsize _ _ rfl]; exact hlegal)
    (fun htrue => by rw [hst] at htrue; cases htrue)
  have hcommonSize := hsize _ _ htaken.data_eq
  have hdone : (p.withHeader b bs).headerDone = (p.withHeader b bs).headerCommon.startPayload := by
    rw [Packet.headerDone, htaken.status_eq, hst, if_neg Bool.false_ne_true, Packet.dataHeader,
      hcommonSize, if_neg (by omega)]
  -- from here on `r` is the packet with the header taken over
  rw [hdone] at hagree hord
  have hfeed : p.feed (b :: bs) = (p.withHeader b bs).headerCommon.startPayload := by
    rw [Packet.feed_header hs.running h.header h.dataPtr b bs hlen, hdone]
  obtain ⟨hcall, hshared⟩ := hagree.ok htaken.shared.running
  rw [← captureCallback_header h.header h.dataPtr b bs hlen] at hcall
  generalize (p.withHeader b bs).headerCommon = r at *
  have hpay : r.startPayload.captureSize = payload.length := by
    show (r.headerSize : Int) - dataHeaderSize = payload.length
    omega
  have hlast : lastAfter ls tsInt last (.data clock flags duration payload hle) = last :=
    if_pos rfl
  have hline : SameLine p r.startPayload := ⟨htaken.line.1, htaken.line.2, htaken.line.3⟩
  have hsaved : ∀ q, SameLine p q → q.captureSavedLs = lsSe0 → last = some q.captureSavedTs := by
    intro q hq hse0
    rcases hq.saved with hx | hx
    · rw [hq.savedTs_eq]
      exact h.saved (hx.symm.trans hse0)
    · exact absurd (hx.symm.trans hse0) (by decide)
  by_cases hnil : payload = []
  · -- an empty payload: the next header follows at once
    have hhead : r.startPayload.captureHeader = true := by
      show decide ((r.headerSize : Int) - dataHeaderSize = 0) = true
      rw [hcommonSize, hnil]
      rfl
    have hwhole : (Frame.data clock flags duration payload hle).encode toggle = b :: bs := by
      rw [hencode, hnil, List.append_nil]
    refine ⟨?_, ⟨?_, ?_, ?_, ?_, ?_, ?_, ?_⟩, ?_⟩ <;> rw [hwhole, hfeed]
    · rw [hcall]
      exact .on hshared
    · exact hord
    · exact hhead
    · rfl
    · exact htaken.toggle_eq
    · exact htaken.tsInt_eq
    · exact hline.ls_eq.trans h.ls_eq
    · rw [hlast]
      exact hsaved _ hline
    · exact htaken.ts_eq
  · have hhead : r.startPayload.captureHeader = false := by
      have hlen : r.startPayload.captureSize ≠ 0 := by
        rw [hpay, Nat.cast_ne_zero]
        exact fun hzero => hnil (List.length_eq_zero_iff.mp hzero)
      exact decide_eq_false hlen
    -- `s` is the packet with the payload stored
    let s : Packet UInt8 := { r.startPayload with
      captureData := storeBytes r.startPayload.captureData 0 payload
      captureDataPtr := payload.length }
    have hshared' : Shared { s with captureHeader := true } := hshared.congr rfl hshared.texts
    have hsord : s.Ordered := hord.congr rfl
    have hwhole : p.feed ((Frame.data clock flags duration payload hle).encode toggle) =
        s.payloadDone := by
      rw [hencode, Packet.feed_append, hfeed]
      exact Packet.feed_payload hshared.running hhead rfl hnil hpay.symm
    have hwholeCall : captureCallback p ((Frame.data clock flags duration payload hle).encode toggle)
        = payloadDone s := by
      rw [hencode, captureCallback_append, hcall]
      exact captureCallback_payload hhead rfl hnil hpay.symm
    have hem := Packet.emitted_dataEvent { s with captureHeader := true }
    have hsline : SameLine p { s with captureHeader := true } := ⟨hline.1, hline.2, hline.3⟩
    have hevent := hsline.trans (sameLine_dataEvent hshared')
    refine ⟨?_, ⟨?_, ?_, ?_, ?_, ?_, ?_, ?_⟩, ?_⟩ <;> rw [hwhole]
    · rw [hwholeCall]
      exact payloadDone_port (hshared.congr rfl hshared.texts)
    · exact hsord.payloadDone
    · exact congrArg Packet.Assembler.header hem.assembler_eq
    · rfl
    · exact (congrArg Packet.Assembler.toggle hem.assembler_eq).trans htaken.toggle_eq
    · exact (congrArg Packet.Assembler.tsInt hem.assembler_eq).trans htaken.tsInt_eq
    · exact hevent.ls_eq.trans h.ls_eq
    · rw [hlast]
      exact hsaved _ ⟨hevent.1, hevent.2, hevent.3⟩
    · exact (congrArg Packet.Assembler.ts hem.assembler_eq).trans htaken.ts_eq

end Frames

/-! ## Sessions -/

theorem Between.frame {toggle : Bool} {tsInt : UInt64} {ls : Int} {last : Option UInt64}
    {p : Packet UInt8} (h : Between toggle tsInt ls last p) (hs : Shared p) (f : Frame)
    (hforward : p.captureTs ≤ decodedTs tsInt f)
    (hsoon : ls ≠ lineAfter ls f → ∀ t, last = some t → Soon t (decodedTs tsInt f)) :
    Through toggle tsInt ls last f p := by
  cases f with
  | status clock flags => exact h.status hs clock flags hforward hsoon
  | data clock flags duration payload hle => exact h.data hs clock flags duration payload hle hforward

/-- Frames from a state between two frames: as long as the times go
forward and the changes of the line state follow soon enough, the engines
agree. -/
theorem frames_port (fs : List Frame) {toggle : Bool} {tsInt : UInt64} {ls : Int}
    {last : Option UInt64} {p : Packet UInt8} (hs : Shared p)
    (h : Between toggle tsInt ls last p)
    (hts : (p.captureTs :: decodedTimes tsInt fs).Pairwise (· ≤ ·))
    (hline : (last.toList ++ lineChanges ls tsInt fs).IsChain Soon) :
    Agree (captureCallback p (encodeFrames toggle fs)) (p.feed (encodeFrames toggle fs)) := by
  induction fs generalizing toggle tsInt ls last p with
  | nil =>
      rw [encodeFrames, Packet.feed_nil]
      exact .on hs
  | cons f fs ih =>
      rw [decodedTimes, List.pairwise_cons] at hts
      obtain ⟨hfirst, hrest⟩ := hts
      have hsoon : ls ≠ lineAfter ls f → ∀ t, last = some t → Soon t (decodedTs tsInt f) := by
        rintro hne t rfl
        rw [lineChanges, if_neg hne] at hline
        exact (List.isChain_cons_cons.mp hline).1
      have hnext : ((lastAfter ls tsInt last f).toList ++
          lineChanges (lineAfter ls f) (nextInt tsInt f) fs).IsChain Soon := by
        rw [lineChanges] at hline
        rw [lastAfter]
        by_cases heq : ls = lineAfter ls f
        · rw [if_pos heq] at hline ⊢
          exact hline
        · rw [if_neg heq] at hline ⊢
          exact (List.isChain_append.mp hline).2.1
      obtain ⟨hagree, hbetween, hnow⟩ := h.frame hs f (hfirst _ List.mem_cons_self) hsoon
      rw [encodeFrames, Packet.feed_append, captureCallback_append]
      generalize captureCallback p (f.encode toggle) = r at hagree ⊢
      cases hagree with
      | on hshared => exact ih hshared hbetween (hnow ▸ hrest) hnext
      | ended hout hdone htexts =>
          rw [Packet.feed_of_done hdone]
          exact .ended hout hdone htexts

theorem announce_port (opts : PacketOpts) (hf : opts.foldEmpty = false)
    (hspeed : opts.captureSpeed = .reset ∨ opts.captureSpeed = .ls) :
    announce opts = Packet.announce (Packet.new opts) ∧
      Shared (Packet.announce (Packet.new opts)) := by
  have hnew : Shared (Packet.new opts : Packet UInt8) := by
    refine ⟨⟨rfl, rfl⟩, hf, hspeed, rfl, fun ts m hmem => ?_⟩
    cases hmem
  rw [announce, Packet.announce, captureInfo_port hnew, captureInfo_port hnew]
  refine ⟨rfl, ?_⟩
  split
  · have hinfo := hnew.captureInfo (m := .startingCapture) rfl 0
    exact hinfo.congr rfl hinfo.texts
  · exact hnew.captureInfo (m := .waitingForTrigger) rfl _

theorem between_announce (opts : PacketOpts) :
    Between false 0 (-1) none (Packet.announce (Packet.new opts)) := by
  have hord := Packet.ordered_announce (β := UInt8) opts
  have hne : lsInvalid ≠ lsSe0 := by decide
  rw [Packet.announce, Packet.captureInfo_eq, Packet.captureInfo_eq] at hord ⊢
  split at hord
  · rename_i htrigger
    rw [if_pos htrigger]
    exact ⟨hord, rfl, rfl, rfl, rfl, rfl, fun hse0 => absurd hse0 hne⟩
  · rename_i htrigger
    rw [if_neg htrigger]
    exact ⟨hord, rfl, rfl, rfl, rfl, rfl, fun hse0 => absurd hse0 hne⟩

theorem foldlM_captureCallback (chunks : List (List UInt8)) (c : Capture) :
    chunks.foldlM captureCallback c = captureCallback c chunks.flatten := by
  induction chunks generalizing c with
  | nil => rfl
  | cons chunk chunks ih =>
      rw [List.flatten_cons, captureCallback_append, List.foldlM_cons]
      cases captureCallback c chunk with
      | error c' => rfl
      | ok c' => exact ih c'

/-- A record of gen1 as it is in the file: interface, timestamp, bytes. -/
def fileRecord : Record UInt8 → Nat × UInt64 × List UInt8
  | .epb ts data => (0, ts, data)
  | .info ts m =>
      (1, ts, [0, 12, 0, 6, 115, 121, 115, 108, 111, 103, 0, 0, 0, 0] ++ Pcapng.chars (text m))

/-- A record of gen2, as `pcapng_write_epb` and `pcapng_write_info` put
it into the file. -/
def portedRecord : Record UInt8 → Nat × UInt64 × List UInt8
  | .epb ts data => (0, ts, data)
  | .info ts m => (1, ts, Pcapng.syslogTag ++ Pcapng.chars m.text)

theorem fileRecord_eq {r : Record UInt8} (h : ∀ ts m, r = .info ts m → SameText m) :
    fileRecord r = portedRecord r := by
  have hdr : ([0, 12, 0, 6, 115, 121, 115, 108, 111, 103, 0, 0, 0, 0] : List UInt8) =
      Pcapng.syslogTag := by decide
  cases r with
  | epb ts data => rfl
  | info ts m => rw [fileRecord, portedRecord, hdr, h ts m rfl]

/-- **The port is faithful.** Without folding and with the speed option
auto or LS, any well-formed frames whose decoded times do not go back and
whose line-state changes are less than `2 ^ 32` ns apart, whatever the
trigger, the limit and the chunks: gen1 writes until it exits what gen2
writes until it is done. -/
theorem port_records (opts : PacketOpts) (hf : opts.foldEmpty = false)
    (hspeed : opts.captureSpeed = .reset ∨ opts.captureSpeed = .ls) (fs : List Frame)
    (hts : (decodedTimes 0 fs).Pairwise (· ≤ ·)) (hline : (lineChanges (-1) 0 fs).IsChain Soon)
    (chunks chunks' : List (List UInt8)) (hchunks : chunks.flatten = encodeFrames false fs)
    (hchunks' : chunks'.flatten = encodeFrames false fs) :
    (Run.out (capture opts chunks)).map fileRecord =
      (chunks'.foldl Packet.feed (Packet.announce (Packet.new opts))).out.map portedRecord := by
  obtain ⟨hannounce, hshared⟩ := announce_port opts hf hspeed
  have hsorted : ((Packet.announce (Packet.new opts : Packet UInt8)).captureTs ::
      decodedTimes 0 fs).Pairwise (· ≤ ·) := by
    rw [Packet.announce_ts, List.pairwise_cons]
    exact ⟨fun t _ => UInt64.zero_le, hts⟩
  have hagree := frames_port fs hshared (between_announce opts) hsorted hline
  rw [capture, foldlM_captureCallback, hannounce, Packet.feed_flatten, hchunks, hchunks']
  have hout : ∀ {r p}, Agree r p → Run.out r = p.out ∧ SameTexts p.out := by
    intro r p h
    cases h with
    | on h => exact ⟨rfl, h.texts⟩
    | ended hout _ htexts => exact ⟨hout, htexts⟩
  obtain ⟨heq, htexts⟩ := hout hagree
  rw [heq]
  refine List.map_congr_left fun r hr => fileRecord_eq fun ts m hrm => ?_
  exact htexts ts m (hrm ▸ hr)

/-- A low-speed bus: an SE0, the J that makes it a keep-alive 1.5 us
later, and a packet. -/
def lowSpeedFrames : List Frame :=
  [.status ⟨false, 0, FrameClock.zero_lt⟩ 0x00, .status ⟨false, 90, by decide⟩ 0x0c,
    .data ⟨true, 10, FrameClock.ten_lt⟩ 0 0 [0x69, 1, 2] (by decide)]

theorem port_records_lowSpeedFrames :
    Run.out (capture { foldOpts with foldEmpty := false, captureLimit := 2 }
        [encodeFrames false lowSpeedFrames]) ≠ [] ∧
      (Run.out (capture { foldOpts with foldEmpty := false, captureLimit := 2 }
        [encodeFrames false lowSpeedFrames])).map fileRecord =
      ([encodeFrames false lowSpeedFrames].foldl Packet.feed (Packet.announce (Packet.new
        { foldOpts with foldEmpty := false, captureLimit := 2 }))).out.map portedRecord :=
  ⟨by decide +kernel, port_records _ rfl (Or.inl rfl) lowSpeedFrames (by decide +kernel)
    (by decide +kernel) _ _ (List.append_nil _) (List.append_nil _)⟩

end UsbSniffer.Gen1
