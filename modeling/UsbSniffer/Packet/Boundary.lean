import UsbSniffer.Packet.FoldBlind
import UsbSniffer.Packet.Frames
import UsbSniffer.Packet.Written

/-!
# Whole frames, whatever the options

`feed_frames` shows what a capture without folding writes. Here the
options are any, as long as no limit stops the capture, and so is the
type of a byte: a stretch of bytes spells a frame if their values do.
Between two frames the assembler is at a boundary (`AtBoundary`), a frame
takes it to the next one, and a data frame reaches `data_event` with its
flags and its payload (`feed_data`).
-/

namespace UsbSniffer.Packet

variable {β : Type}

/-- The texts a header's time can bring: the update, and the line state
in front of it. -/
def Ticks : Msg → Prop
  | .lineState _ _ | .periodicUpdate => True
  | _ => False

theorem ticks_headerTimeout (p : Packet β) : InfoOnly Ticks p p.headerTimeout := by
  rw [headerTimeout]
  split
  · exact InfoOnly.timeoutEvent (fun _ _ => trivial) trivial p
  · exact InfoOnly.refl p

variable [ByteLike β]

/-! ## Bytes that spell a frame -/

/-- The values of `bs` are the bytes of the frame. -/
def Spells (toggle : Bool) (f : Frame) (bs : List β) : Prop :=
  bs.map ByteLike.val = f.encode toggle

theorem spells_encode (toggle : Bool) (f : Frame) :
    Spells toggle f (f.encode toggle : List UInt8) := List.map_id _

theorem byteAt_spelled {p : Packet β} {data : Nat → β} {bs : List β}
    (h : p.captureData = storeBytes data 0 bs) {i : Nat} {x : UInt8}
    (hx : (bs.map ByteLike.val)[i]? = some x) : p.byteAt i = x := by
  rw [List.getElem?_map, Option.map_eq_some_iff] at hx
  obtain ⟨b, hb, rfl⟩ := hx
  obtain ⟨hi, rfl⟩ := List.getElem?_eq_some_iff.mp hb
  rw [byteAt, h, storeBytes_get data bs ⟨i, hi⟩]
  rfl

/-! ## At a boundary -/

/-- Between two frames, with the next toggle and no limit ahead. -/
structure AtBoundary (toggle : Bool) (p : Packet β) : Prop where
  unlimited : p.Unlimited
  header : p.captureHeader = true
  dataPtr : p.captureDataPtr = 0
  toggle_eq : p.captureToggle = toggle.toNat

theorem Unlimited.feed {p : Packet β} (h : p.Unlimited) (data : List β) :
    (p.feed data).Unlimited := by
  have ha : Agree p p := ⟨rfl, h, h⟩
  exact (ha.feed data).left

/-- The header of a well-formed frame passes the check. -/
theorem AtBoundary.headerCommon {toggle : Bool} {p : Packet β} (h : AtBoundary toggle p)
    {isData : Bool} {c : FrameClock} {b : β}
    (hb : ByteLike.val b = headByte isData toggle c.tsOverflow (c.ts / 2 ^ 16)) (bs : List β) :
    (p.withHeader b bs).headerCommon = (p.withHeader b bs).headerClock.headerTimeout ∧
      (p.withHeader b bs).headerClock.captureToggle = (!toggle).toNat ∧
      startsStatus b = !isData := by
  obtain ⟨hst, hflag, hzero, -, -⟩ :=
    headByte_bits isData toggle c.tsOverflow ⟨_, clock_high_lt c⟩
  have hhead : (p.withHeader b bs).byteAt 0 =
      headByte isData toggle c.tsOverflow (c.ts / 2 ^ 16) :=
    byteAt_spelled rfl (by rw [List.map_cons, hb]; rfl)
  have hcheck : (p.withHeader b bs).checkHeader (flag ((p.withHeader b bs).byteAt 0) 0x40)
      (flag ((p.withHeader b bs).byteAt 0) 0x20) = p.withHeader b bs := by
    rw [checkHeader, hhead, if_pos ⟨hflag.trans h.toggle_eq.symm, hzero⟩]
  refine ⟨by rw [Packet.headerCommon, hcheck], ?_, ?_⟩
  · show 1 - flag ((p.withHeader b bs).byteAt 0) 0x40 = (!toggle).toNat
    rw [hhead, hflag]
    cases toggle <;> rfl
  · rw [startsStatus, hb]
    exact hst

/-! ## Data frames -/

/-- The packet as `data_event` sees the payload of a frame that begins in
`p`: with its flags in, and nothing but the header's texts written. -/
structure Received (toggle : Bool) (flags : UInt8) (body : List β) (p s : Packet β) : Prop where
  header : s.captureHeader = true
  toggle_eq : s.captureToggle = (!toggle).toNat
  overflow : s.captureOverflow = (flags &&& 0x08 != 0)
  crcError : s.captureCrcError = (flags &&& 0x10 != 0)
  dataError : s.captureDataError = (flags &&& 0x20 != 0)
  payload : s.payload = body
  size : s.captureSize = body.length
  opts : s.opts = p.opts
  bus : s.bus = p.bus
  quota : s.quota = p.quota
  foldBuf : s.captureFoldBuf = p.captureFoldBuf
  foldCount : s.captureFoldCount = p.captureFoldCount
  noted : ∃ w : List (UInt64 × Msg), s.out = p.out ++ w.map infoRecord ∧ ∀ r ∈ w, Ticks r.2

theorem sizeByte_flags (flags : UInt8) (high : Fin 8) :
    (sizeByte flags high &&& 0x08 != 0) = (flags &&& 0x08 != 0) ∧
      (sizeByte flags high &&& 0x10 != 0) = (flags &&& 0x10 != 0) ∧
      (sizeByte flags high &&& 0x20 != 0) = (flags &&& 0x20 != 0) := by
  have hhigh : ∀ n : Fin 8, UInt8.ofNat n &&& 0x08 = 0 ∧ UInt8.ofNat n &&& 0x10 = 0 ∧
      UInt8.ofNat n &&& 0x20 = 0 := by decide
  obtain ⟨h8, h10, h20⟩ := hhigh high
  refine ⟨?_, ?_, ?_⟩
  · rw [sizeByte_and, h8, UInt8.or_zero]
    rfl
  · rw [sizeByte_and, h10, UInt8.or_zero]
    rfl
  · rw [sizeByte_and, h20, UInt8.or_zero]
    rfl

theorem decide_ne_zero (x : UInt8) : decide (x ≠ 0) = (x != 0) := by
  by_cases h : x = 0
  · rw [h]
    rfl
  · rw [decide_eq_true h, bne_iff_ne.mpr h]

/-- **A well-formed data frame**: an empty payload is the end of it, any
other is given to `data_event` with the frame's flags. -/
theorem AtBoundary.feed_data {toggle : Bool} {p : Packet β} (h : AtBoundary toggle p)
    {clock : FrameClock} {flags : UInt8} {duration : UInt16} {payload : List UInt8}
    {hle : payload.length ≤ maxDataSize - dataHeaderSize} {bs : List β}
    (hs : Spells toggle (.data clock flags duration payload hle) bs) :
    ∃ s, Received toggle flags (bs.drop dataHeaderSize) p s ∧
      p.feed bs = if payload = [] then { s with captureDataPtr := 0 }
        else { s.dataEvent with captureDataPtr := 0 } := by
  have hle' : payload.length ≤ 1273 := hle
  -- seven header bytes, and the payload behind them
  have hlen : bs.length = 7 + payload.length := by
    have hl := congrArg List.length hs
    rw [List.length_map] at hl
    rw [hl, Frame.encode]
    simp only [FrameClock.encode, List.length_append, List.length_cons, List.length_nil]
  have hsplit := List.take_append_drop 7 bs
  have hhead : (bs.take 7).map ByteLike.val = clock.encode true toggle ++
      [sizeByte flags ((dataHeaderSize + payload.length) / 2 ^ 8),
        UInt8.ofNat ((dataHeaderSize + payload.length) % 2 ^ 8), (duration >>> 8).toUInt8,
        duration.toUInt8] := by
    rw [List.map_take, hs]
    rfl
  have hbody : (bs.drop 7).length = payload.length := by rw [List.length_drop, hlen]; omega
  obtain ⟨b, tl, hbtl⟩ : ∃ b tl, bs.take 7 = b :: tl := by
    cases ht : bs.take 7 with
    | nil =>
        rw [ht] at hhead
        cases hhead
    | cons b tl => exact ⟨b, tl, rfl⟩
  have hheadLen : (b :: tl).length = 7 := by
    rw [← hbtl, List.length_take, hlen]
    omega
  rw [hbtl] at hhead hsplit
  have hfirst : ByteLike.val b = headByte true toggle clock.tsOverflow (clock.ts / 2 ^ 16) :=
    (List.cons.inj hhead).1
  obtain ⟨hcommon, htoggle, hst⟩ := h.headerCommon hfirst tl
  have hstart : startsStatus b = false := hst
  have hheaderLength : headerLength b = 7 := by rw [headerLength, hstart]; rfl
  -- the header bytes that the data branch reads
  obtain ⟨w, t, ls, hq, hw⟩ := ticks_headerTimeout (p.withHeader b tl).headerClock
  generalize hr : (p.withHeader b tl).headerClock.headerTimeout = r at hq hcommon
  have hdata : r.captureData = storeBytes p.captureData 0 (b :: tl) := by rw [hq]; rfl
  have h3 : r.byteAt 3 = sizeByte flags ((dataHeaderSize + payload.length) / 2 ^ 8) :=
    byteAt_spelled hdata (by rw [hhead]; rfl)
  have h4 : r.byteAt 4 = UInt8.ofNat ((dataHeaderSize + payload.length) % 2 ^ 8) :=
    byteAt_spelled hdata (by rw [hhead]; rfl)
  have hhigh : (7 + payload.length) / 2 ^ 8 < 8 := by omega
  have hsize : r.headerSize = 7 + payload.length := by
    have hbyte := sizeByte_high flags ⟨(7 + payload.length) / 2 ^ 8, hhigh⟩
    rw [headerSize, h3, h4, UInt8.toNat_ofNat']
    show (sizeByte flags ((7 + payload.length) / 2 ^ 8) &&& 0x7).toNat * 256 +
      (7 + payload.length) % 2 ^ 8 % 2 ^ 8 = 7 + payload.length
    rw [hbyte]
    show (7 + payload.length) / 2 ^ 8 * 256 + (7 + payload.length) % 2 ^ 8 % 2 ^ 8 =
      7 + payload.length
    omega
  obtain ⟨hf8, hf10, hf20⟩ := sizeByte_flags flags ⟨(7 + payload.length) / 2 ^ 8, hhigh⟩
  have hheader : p.feed (b :: tl) = r.startPayload := by
    have hlegal : ¬ (r.headerSize < dataHeaderSize ∨ r.headerSize > maxDataSize) := by
      rw [hsize]
      show ¬ (7 + payload.length < 7 ∨ 7 + payload.length > 1280)
      omega
    have hnot : ¬ r.captureStatus = true := by
      rw [hq]
      show ¬ startsStatus b = true
      rw [hstart]
      exact Bool.false_ne_true
    rw [feed_header h.unlimited.running h.header h.dataPtr b tl
      (by rw [← List.length_cons, hheadLen, hheaderLength]), headerDone, hcommon, if_neg hnot,
      Packet.dataHeader, if_neg hlegal]
  have hpsize : (r.headerSize : Int) - dataHeaderSize = payload.length := by
    rw [hsize]
    show ((7 + payload.length : Nat) : Int) - (7 : Nat) = payload.length
    omega
  have hfeed : p.feed bs = r.startPayload.feed (bs.drop 7) := by
    rw [← hheader, ← feed_append, hsplit]
  let s : Packet β :=
    { r.startPayload with
      captureData := storeBytes r.startPayload.captureData 0 (bs.drop 7)
      captureDataPtr := (bs.drop 7).length
      captureHeader := true }
  have hrec : Received toggle flags (bs.drop dataHeaderSize) p s := by
    have hssize : s.captureSize = (bs.drop 7).length := by rw [hbody]; exact hpsize
    refine
      { header := rfl
        toggle_eq := ?_
        overflow := ?_
        crcError := ?_
        dataError := ?_
        payload := ?_
        size := hssize
        opts := ?_
        bus := ?_
        quota := ?_
        foldBuf := ?_
        foldCount := ?_
        noted := ⟨w, ?_, hw⟩ }
    · show r.captureToggle = _
      rw [hq]
      exact htoggle
    · show decide (r.byteAt 3 &&& 0x08 ≠ 0) = _
      rw [h3, decide_ne_zero]
      exact hf8
    · show decide (r.byteAt 3 &&& 0x10 ≠ 0) = _
      rw [h3, decide_ne_zero]
      exact hf10
    · show decide (r.byteAt 3 &&& 0x20 ≠ 0) = _
      rw [h3, decide_ne_zero]
      exact hf20
    · rw [Packet.payload, hssize, Int.toNat_natCast]
      exact dataBytes_storeBytes (p := s) rfl
    · show r.opts = _
      rw [hq]
      rfl
    · show r.bus = _
      rw [hq]
      rfl
    · show r.quota = _
      rw [hq]
      rfl
    · show r.captureFoldBuf = _
      rw [hq]
      rfl
    · show r.captureFoldCount = _
      rw [hq]
      rfl
    · show r.out = _
      rw [hq]
      rfl
  by_cases hnil : payload = []
  · -- the frame ends with its header; `s` has read no payload byte
    have hdrop : bs.drop 7 = [] := List.eq_nil_of_length_eq_zero (by rw [hbody, hnil]; rfl)
    refine ⟨s, hrec, ?_⟩
    have hzero : r.startPayload.captureHeader = true := by
      show decide ((r.headerSize : Int) - dataHeaderSize = 0) = true
      rw [hpsize, hnil]
      rfl
    have hsame : { s with captureDataPtr := 0 } = r.startPayload := by
      have hsdef : s = { r.startPayload with
        captureData := storeBytes r.startPayload.captureData 0 []
        captureDataPtr := (bs.drop 7).length
        captureHeader := true } := by
        show Packet.mk _ _ _ _ _ _ _ _ _ _ _ _ _ _ _ _ _ _ _ _ _ _ _ _ _ = _
        rw [hdrop]
      rw [hsdef, ← hzero]
      rfl
    rw [if_pos hnil, hsame, hfeed, hdrop, feed_nil]
  · refine ⟨s, hrec, ?_⟩
    have hne : bs.drop 7 ≠ [] := by
      intro hdrop
      rw [hdrop, List.length_nil] at hbody
      exact hnil (List.eq_nil_of_length_eq_zero hbody.symm)
    have hfalse : r.startPayload.captureHeader = false := by
      show decide ((r.headerSize : Int) - dataHeaderSize = 0) = false
      rw [hpsize, decide_eq_false_iff_not, Nat.cast_eq_zero, List.length_eq_zero_iff]
      exact hnil
    have hrun : r.startPayload.done = false := by
      show r.done = false
      rw [hq]
      exact h.unlimited.running
    rw [if_neg hnil, hfeed, feed_payload hrun hfalse rfl hne (by rw [hbody]; exact hpsize.symm),
      payloadDone]

/-! ## From boundary to boundary -/

theorem AtBoundary.data {toggle : Bool} {p : Packet β} (h : AtBoundary toggle p)
    {clock : FrameClock} {flags : UInt8} {duration : UInt16} {payload : List UInt8}
    {hle : payload.length ≤ maxDataSize - dataHeaderSize} {bs : List β}
    (hs : Spells toggle (.data clock flags duration payload hle) bs) :
    AtBoundary (!toggle) (p.feed bs) := by
  have hu := h.unlimited.feed bs
  obtain ⟨s, hr, hfeed⟩ := h.feed_data hs
  have hem := emitted_dataEvent s
  rw [hfeed] at hu ⊢
  split
  · rename_i hnil
    rw [if_pos hnil] at hu
    exact ⟨hu, hr.header, rfl, hr.toggle_eq⟩
  · rename_i hnil
    rw [if_neg hnil] at hu
    exact ⟨hu, (congrArg Assembler.header hem.assembler_eq).trans hr.header, rfl,
      (congrArg Assembler.toggle hem.assembler_eq).trans hr.toggle_eq⟩

/-- **A well-formed status frame** reaches `status_event` with its flags. -/
theorem AtBoundary.feed_status {toggle : Bool} {p : Packet β} (h : AtBoundary toggle p)
    {clock : FrameClock} {flags : UInt8} {bs : List β}
    (hs : Spells toggle (.status clock flags) bs) :
    ∃ r : Packet β, p.feed bs = r.statusHeader ∧ r.captureHeader = true ∧
      r.captureToggle = (!toggle).toNat ∧ r.byteAt 3 = flags ∧ r.opts = p.opts ∧ r.bus = p.bus ∧
      r.captureFoldBuf = p.captureFoldBuf ∧ r.captureFoldCount = p.captureFoldCount := by
  obtain ⟨b, tl, rfl⟩ : ∃ b tl, bs = b :: tl := by
    cases bs with
    | nil => cases hs
    | cons b tl => exact ⟨b, tl, rfl⟩
  have hfirst : ByteLike.val b = headByte false toggle clock.tsOverflow (clock.ts / 2 ^ 16) :=
    (List.cons.inj hs).1
  obtain ⟨hcommon, htoggle, hst⟩ := h.headerCommon hfirst tl
  have hstart : startsStatus b = true := hst
  have hlen : tl.length + 1 = headerLength b := by
    have hl := congrArg List.length hs
    rw [List.length_map, List.length_cons] at hl
    rw [hl, headerLength, hstart]
    rfl
  obtain ⟨w, t, ls, hq, -⟩ := ticks_headerTimeout (p.withHeader b tl).headerClock
  generalize (p.withHeader b tl).headerClock.headerTimeout = r at hq hcommon
  have hdata : r.captureData = storeBytes p.captureData 0 (b :: tl) := by rw [hq]; rfl
  have hstatus : r.captureStatus = true := by rw [hq]; exact hstart
  refine ⟨r, ?_, ?_, ?_, byteAt_spelled hdata (by rw [hs]; rfl), ?_, ?_, ?_, ?_⟩
  · rw [feed_header h.unlimited.running h.header h.dataPtr b tl hlen, headerDone, hcommon,
      if_pos hstatus]
  · rw [hq]
    exact h.header
  · rw [hq]
    exact htoggle
  · rw [hq]
    rfl
  · rw [hq]
    rfl
  · rw [hq]
    rfl
  · rw [hq]
    rfl

theorem AtBoundary.status {toggle : Bool} {p : Packet β} (h : AtBoundary toggle p)
    {clock : FrameClock} {flags : UInt8} {bs : List β}
    (hs : Spells toggle (.status clock flags) bs) : AtBoundary (!toggle) (p.feed bs) := by
  have hu := h.unlimited.feed bs
  obtain ⟨r, hfeed, hheader, htoggle, -⟩ := h.feed_status hs
  have hsig := signalled_statusEvent r (r.byteAt 3 &&& 0x0f).toNat (flag (r.byteAt 3) 0x10)
    (flag (r.byteAt 3) 0x20) (speedField (r.byteAt 3))
  rw [hfeed] at hu ⊢
  exact ⟨hu, (congrArg Assembler.header hsig.assembler_eq).trans hheader, rfl,
    (congrArg Assembler.toggle hsig.assembler_eq).trans htoggle⟩

theorem AtBoundary.frame {toggle : Bool} {p : Packet β} (h : AtBoundary toggle p) {f : Frame}
    {bs : List β} (hs : Spells toggle f bs) : AtBoundary (!toggle) (p.feed bs) := by
  cases f with
  | status clock flags => exact h.status hs
  | data clock flags duration payload hle => exact h.data hs

/-- The toggle of the frame behind `fs`. -/
def toggleAfter (toggle : Bool) (fs : List Frame) : Bool := (toggle != (fs.length % 2 == 1))

theorem toggleAfter_cons (toggle : Bool) (f : Frame) (fs : List Frame) :
    toggleAfter toggle (f :: fs) = toggleAfter (!toggle) fs := by
  rw [toggleAfter, toggleAfter, List.length_cons]
  rcases Nat.mod_two_eq_zero_or_one fs.length with h | h
  · rw [Nat.add_mod, h]
    cases toggle <;> rfl
  · rw [Nat.add_mod, h]
    cases toggle <;> rfl

/-- **Well-formed frames lead from boundary to boundary.** -/
theorem AtBoundary.frames {toggle : Bool} {p : Packet UInt8} (h : AtBoundary toggle p)
    (fs : List Frame) :
    AtBoundary (toggleAfter toggle fs) (p.feed (encodeFrames toggle fs)) := by
  induction fs generalizing toggle p with
  | nil =>
      rw [encodeFrames, feed_nil]
      cases toggle <;> exact h
  | cons f fs ih =>
      rw [encodeFrames, feed_append, toggleAfter_cons]
      exact ih (h.frame (spells_encode toggle f))

theorem encodeFrames_append (toggle : Bool) (fs gs : List Frame) :
    encodeFrames toggle (fs ++ gs) =
      encodeFrames toggle fs ++ encodeFrames (toggleAfter toggle fs) gs := by
  induction fs generalizing toggle with
  | nil => cases toggle <;> rfl
  | cons f fs ih =>
      rw [List.cons_append, encodeFrames, encodeFrames, ih, toggleAfter_cons, List.append_assoc]

theorem atBoundary_announce {opts : PacketOpts} (hl : opts.captureLimit ≤ 0) :
    AtBoundary false (announce (new opts : Packet β)) := by
  rw [announce, captureInfo_eq, captureInfo_eq]
  split
  · exact ⟨⟨hl, rfl⟩, rfl, rfl, rfl⟩
  · exact ⟨⟨hl, rfl⟩, rfl, rfl, rfl⟩

end UsbSniffer.Packet
