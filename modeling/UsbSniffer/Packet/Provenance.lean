import UsbSniffer.Packet.Records

/-!
# Bytes that know where they came from

The frame layer never looks at more of a captured byte than its value, so
a byte may carry a mark through it. `Packet.map` forgets the marks, and
every function of the layer commutes with it (`map_*`): a run on marked
bytes is the run of the code with the marks left on.

What is written or folded is what was in the payload buffer when its
frame was complete (`Stored`), and in the payload phase every byte of the
buffer was fed since the phase began (`Unspliced`).
-/

namespace UsbSniffer

variable {β γ : Type}

namespace Record

/-- A record with its bytes replaced; the informational ones have none of
their own. -/
def map (f : β → γ) : Record β → Record γ
  | .epb ts data => .epb ts (data.map f)
  | .info ts msg => .info ts msg

end Record

/-- A slot of the fold buffer likewise. -/
def CaptureFrame.map (f : β → γ) (c : CaptureFrame β) : CaptureFrame γ where
  ts := c.ts
  size := c.size
  data := c.data.map f

namespace Packet

/-- The packet with every captured byte replaced. -/
def map (f : β → γ) (p : Packet β) : Packet γ where
  opts := p.opts
  out := p.out.map (Record.map f)
  done := p.done
  captureData := fun i => f (p.captureData i)
  captureDataPtr := p.captureDataPtr
  captureSize := p.captureSize
  captureHeader := p.captureHeader
  captureStatus := p.captureStatus
  captureToggle := p.captureToggle
  captureLs := p.captureLs
  captureVbus := p.captureVbus
  captureTriggerInput := p.captureTriggerInput
  captureSpeedIn := p.captureSpeedIn
  captureEnabled := p.captureEnabled
  captureTsInt := p.captureTsInt
  captureTs := p.captureTs
  captureLastTs := p.captureLastTs
  captureOverflow := p.captureOverflow
  captureCrcError := p.captureCrcError
  captureDataError := p.captureDataError
  captureDuration := p.captureDuration
  captureFoldBuf := p.captureFoldBuf.map (CaptureFrame.map f)
  captureFoldCount := p.captureFoldCount
  captureSavedLs := p.captureSavedLs
  captureSavedTs := p.captureSavedTs

variable (f : β → γ) (p : Packet β)

theorem map_dataBytes (n : Nat) : (p.map f).dataBytes n = (p.dataBytes n).map f := by
  rw [dataBytes, dataBytes, List.map_map]
  rfl

/-! ## Writing and folding -/

theorem map_writeInfo (ts : UInt64) (m : Msg) :
    (writeInfo p ts m).map f = writeInfo (p.map f) ts m := by
  simp [writeInfo, map, Record.map]

/-- `line_state_event` looks at the saved line state and the options
only, so the recursion takes the same turns with and without the marks. -/
theorem map_lineStateEventDepth (depth : Nat) :
    (lineStateEventDepth depth p).map f = lineStateEventDepth depth (p.map f) := by
  induction depth generalizing p with
  | zero => rfl
  | succ depth ih =>
      rw [lineStateEventDepth, lineStateEventDepth]
      by_cases hs : p.captureSavedLs = lsInvalid
      · rw [if_pos hs, if_pos (show (p.map f).captureSavedLs = lsInvalid from hs)]
      · rw [if_neg hs, if_neg (show ¬ (p.map f).captureSavedLs = lsInvalid from hs)]
        by_cases hx : p.opts.excludeLineState = true
        · rw [if_pos hx, if_pos (show (p.map f).opts.excludeLineState = true from hx)]
          rfl
        · rw [if_neg hx, if_neg (show ¬ (p.map f).opts.excludeLineState = true from hx),
            map_writeInfo, ih]
          rfl

theorem map_lineStateEvent : p.lineStateEvent.map f = (p.map f).lineStateEvent :=
  map_lineStateEventDepth f p 2

/-- An informational record and what it brings along. -/
theorem map_captureInfo (ts : UInt64) (m : Msg) :
    (captureInfo p ts m).map f = captureInfo (p.map f) ts m := by
  rw [captureInfo, captureInfo, map_writeInfo, map_lineStateEvent]

/-- The one record that has captured bytes in it. -/
theorem map_writePacket (ts : UInt64) (data : List β) :
    (writePacket p ts data).map f = writePacket (p.map f) ts (data.map f) := by
  simp [writePacket, map, Record.map]

theorem map_timeoutEvent : p.timeoutEvent.map f = (p.map f).timeoutEvent := by
  rw [timeoutEvent, timeoutEvent, apply_ite (Packet.map f), map_captureInfo]
  rfl

theorem map_flushFrame (c : CaptureFrame β) :
    (flushFrame p c).map f = flushFrame (p.map f) (c.map f) := by
  rw [flushFrame, flushFrame, apply_ite (Packet.map f), writeKeepalive, map_captureInfo,
    map_writePacket]
  rfl

/-- What is in the fold buffer is written as it was put there. -/
theorem map_flush (buf : List (CaptureFrame β)) :
    (buf.foldl flushFrame p).map f =
      (buf.map (CaptureFrame.map f)).foldl flushFrame (p.map f) := by
  induction buf generalizing p with
  | nil => rfl
  | cons c cs ih => rw [List.foldl_cons, List.map_cons, List.foldl_cons, ih, map_flushFrame]

theorem map_flushBuf : p.flushBuf.map f = (p.map f).flushBuf := by
  rw [flushBuf, flushBuf, map_flush]
  rfl

theorem map_noteFolded (count : Nat) :
    (p.noteFolded count).map f = (p.map f).noteFolded count := by
  rw [noteFolded, noteFolded, apply_ite (Packet.map f), map_captureInfo]
  rfl

theorem map_foldBuf_length : (p.map f).captureFoldBuf.length = p.captureFoldBuf.length :=
  List.length_map _

/-- `stop_folding` decides by lengths and counts, which have no marks. -/
theorem map_stopFolding : p.stopFolding.map f = (p.map f).stopFolding := by
  rw [stopFolding, stopFolding, apply_ite (Packet.map f), map_noteFolded, map_flushBuf,
    map_foldBuf_length]
  rfl

theorem map_foldPacket (ts : UInt64) (data : List β) :
    (foldPacket p ts data).map f = foldPacket (p.map f) ts (data.map f) := by
  simp [foldPacket, map, CaptureFrame.map]

theorem map_foldKeepalive (ts : UInt64) (delta : Int) :
    (foldKeepalive p ts delta).map f = foldKeepalive (p.map f) ts delta := by
  simp [foldKeepalive, map, CaptureFrame.map]

theorem map_setDone (d : Bool) : { p with done := d }.map f = { p.map f with done := d } := rfl

/-- The limit counts what was written, whatever is in it. -/
theorem map_checkCaptureLimit : p.checkCaptureLimit.map f = (p.map f).checkCaptureLimit := by
  rw [checkCaptureLimit, checkCaptureLimit, apply_ite (Packet.map f), map_setDone,
    map_captureInfo]
  rfl

theorem map_dropGroup : p.dropGroup.map f = (p.map f).dropGroup := rfl

/-- So does the count of the folded groups. -/
theorem map_countGroup (limit : Nat) :
    (p.countGroup limit).map f = (p.map f).countGroup limit := by
  rw [countGroup, countGroup, apply_ite (Packet.map f), map_stopFolding, map_dropGroup]
  rfl

/-! ## Events -/

/-- A keep-alive, written or folded. -/
theorem map_keepaliveEvent (ts : UInt64) (delta : Int) :
    (p.keepaliveEvent ts delta).map f = (p.map f).keepaliveEvent ts delta := by
  rw [keepaliveEvent, keepaliveEvent, apply_ite (Packet.map f), map_checkCaptureLimit,
    apply_ite (Packet.map f), apply_ite (Packet.map f), writeKeepalive, map_captureInfo,
    map_foldKeepalive, map_foldKeepalive, map_countGroup, map_foldBuf_length]
  rfl

/-- The gate of the trigger. -/
theorem map_noteGate (wasEnabled : Bool) :
    (p.noteGate wasEnabled).map f = (p.map f).noteGate wasEnabled := by
  rw [noteGate, noteGate, apply_ite (Packet.map f), apply_ite (Packet.map f), map_captureInfo,
    map_captureInfo]
  rfl

theorem map_statusTrigger (trigger : Int) :
    (p.statusTrigger trigger).map f = (p.map f).statusTrigger trigger := by
  rw [statusTrigger, statusTrigger, apply_ite (Packet.map f), map_noteGate, map_captureInfo]
  rfl

theorem map_statusVbus (vbus : Int) : (p.statusVbus vbus).map f = (p.map f).statusVbus vbus := by
  rw [statusVbus, statusVbus, apply_ite (Packet.map f), map_captureInfo]
  rfl

theorem map_statusSpeed (speed : CaptureSpeed) :
    (p.statusSpeed speed).map f = (p.map f).statusSpeed speed := by
  rw [statusSpeed, statusSpeed, apply_ite (Packet.map f), apply_ite (Packet.map f),
    map_captureInfo]
  rfl

theorem map_saveLine (ls : Int) : (p.saveLine ls).map f = (p.map f).saveLine ls := rfl

/-- A change of the line state ends a keep-alive or is saved for later. -/
theorem map_lineChange (ls : Int) : (p.lineChange ls).map f = (p.map f).lineChange ls := by
  rw [lineChange, lineChange, apply_ite (Packet.map f), map_keepaliveEvent, map_saveLine,
    map_lineStateEvent]
  rfl

theorem map_statusLs (ls : Int) : (p.statusLs ls).map f = (p.map f).statusLs ls := by
  rw [statusLs, statusLs, apply_ite (Packet.map f), map_lineChange]
  rfl

/-- `status_event`: the four fields of a status come as numbers, not as
bytes of the buffer. -/
theorem map_statusEvent (ls vbus trigger : Int) (speed : CaptureSpeed) :
    (p.statusEvent ls vbus trigger speed).map f =
      (p.map f).statusEvent ls vbus trigger speed := by
  rw [statusEvent, statusEvent, map_statusLs, map_statusSpeed, map_statusVbus, map_statusTrigger]

theorem map_dataFlush : p.dataFlush.map f = (p.map f).dataFlush := by
  rw [dataFlush, dataFlush, apply_ite (Packet.map f), map_stopFolding, map_foldBuf_length]
  rfl

theorem map_noteOverflow : p.noteOverflow.map f = (p.map f).noteOverflow := by
  rw [noteOverflow, noteOverflow, apply_ite (Packet.map f), map_captureInfo]
  rfl

theorem map_notePhyError : p.notePhyError.map f = (p.map f).notePhyError := by
  rw [notePhyError, notePhyError, apply_ite (Packet.map f), map_captureInfo]
  rfl

/-- What `data_event` does before it looks at the payload. -/
theorem map_dataPrepare : p.dataPrepare.map f = (p.map f).dataPrepare := by
  rw [dataPrepare, dataPrepare, map_notePhyError, map_noteOverflow, map_dataFlush,
    map_lineStateEvent]

/-- The update every two seconds. -/
theorem map_headerTimeout : p.headerTimeout.map f = (p.map f).headerTimeout := by
  rw [headerTimeout, headerTimeout, apply_ite (Packet.map f), map_timeoutEvent]
  rfl

/-! ## The functions that look at a byte -/

section Bytes

variable [ByteLike β] [ByteLike γ] (hf : ∀ b, ByteLike.val (f b) = ByteLike.val b)

include hf

/-- The hypothesis `hf` is what makes it the same byte for the code: the
value stays. -/
theorem map_framePid : (p.map f).framePid = p.framePid := hf _

theorem map_byteAt (i : Nat) : (p.map f).byteAt i = p.byteAt i := hf _

/-- The payload is folded or written by its first byte and its length. -/
theorem map_dataWrite : p.dataWrite.map f = (p.map f).dataWrite := by
  have hpay : (p.map f).payload = p.payload.map f := map_dataBytes f p p.captureSize.toNat
  rw [dataWrite, dataWrite, map_framePid f p hf, map_foldBuf_length, hpay]
  simp only [apply_ite (Packet.map f), map_writePacket, map_foldPacket, map_countGroup,
    map_stopFolding]
  rfl

theorem map_dataEvent : p.dataEvent.map f = (p.map f).dataEvent := by
  rw [dataEvent, dataEvent, apply_ite (Packet.map f), map_checkCaptureLimit,
    map_dataWrite f _ hf, map_dataPrepare]
  rfl

/-- The header that is shown after a desynchronization is shown by the
values of its bytes. -/
theorem map_headerBytes (n : Nat) :
    ((p.map f).dataBytes n).map ByteLike.val = (p.dataBytes n).map ByteLike.val := by
  rw [map_dataBytes, List.map_map]
  exact List.map_congr_left fun b _ => hf b

theorem map_noteHeader : p.noteHeader.map f = (p.map f).noteHeader := by
  rw [noteHeader, noteHeader, map_captureInfo, map_headerBytes f p hf]
  rfl

/-- `desync_error`, which prints the header. -/
theorem map_desyncError : p.desyncError.map f = (p.map f).desyncError := by
  have h := map_noteHeader f (captureInfo p p.captureTs .desynchronization) hf
  rw [map_captureInfo] at h
  exact congrArg resetFrame h

/-- The checks of the toggle and the zero bit. -/
theorem map_checkHeader (toggle zeroBit : Nat) :
    (p.checkHeader toggle zeroBit).map f = (p.map f).checkHeader toggle zeroBit := by
  have ht : (p.noteToggle toggle).map f = (p.map f).noteToggle toggle := by
    rw [noteToggle, noteToggle, apply_ite (Packet.map f), map_captureInfo]
    rfl
  have hz : ((p.noteToggle toggle).noteZeroBit zeroBit).map f =
      ((p.map f).noteToggle toggle).noteZeroBit zeroBit := by
    rw [noteZeroBit, noteZeroBit, apply_ite (Packet.map f), map_captureInfo, ht, ← ht]
    rfl
  rw [checkHeader, checkHeader, apply_ite (Packet.map f), map_desyncError f _ hf, hz]
  rfl

theorem map_checkDataSize (size : Nat) :
    (p.checkDataSize size).map f = (p.map f).checkDataSize size := by
  rw [checkDataSize, checkDataSize, apply_ite (Packet.map f), map_desyncError f _ hf,
    map_captureInfo]
  rfl

/-- The time of a header is read from its bytes and the time so far. -/
theorem map_headerClock : p.headerClock.map f = (p.map f).headerClock := by
  have hts : (p.map f).headerTs = p.headerTs := by
    rw [headerTs, headerTs, map_byteAt f p hf, map_byteAt f p hf, map_byteAt f p hf]
  have hint : (p.map f).nextTsInt = p.nextTsInt := by
    rw [nextTsInt, nextTsInt, map_byteAt f p hf]
    rfl
  rw [headerClock, headerClock, hts, hint, map_byteAt f p hf]
  rfl

theorem map_headerCommon : p.headerCommon.map f = (p.map f).headerCommon := by
  rw [headerCommon, headerCommon, map_headerTimeout, map_headerClock f _ hf,
    map_checkHeader f _ hf, map_byteAt f p hf]

theorem map_headerSize : (p.map f).headerSize = p.headerSize := by
  rw [headerSize, headerSize, map_byteAt f p hf, map_byteAt f p hf]

/-- The fields of a data header. -/
theorem map_startPayload : p.startPayload.map f = (p.map f).startPayload := by
  rw [startPayload, startPayload, map_headerSize f p hf, map_byteAt f p hf, map_byteAt f p hf,
    map_byteAt f p hf]
  rfl

theorem map_dataHeader : p.dataHeader.map f = (p.map f).dataHeader := by
  rw [dataHeader, dataHeader, apply_ite (Packet.map f), map_checkDataSize f p hf,
    map_startPayload f p hf, map_headerSize f p hf]

theorem map_statusHeader : p.statusHeader.map f = (p.map f).statusHeader := by
  have h : p.statusOf.map f = (p.map f).statusOf := by
    rw [statusOf, statusOf, map_statusEvent, map_byteAt f p hf]
  exact congrArg (fun q : Packet γ => { q with captureDataPtr := 0 }) h

/-- A complete header, of either kind. -/
theorem map_headerDone : p.headerDone.map f = (p.map f).headerDone := by
  rw [headerDone, headerDone, apply_ite (Packet.map f), map_statusHeader f _ hf,
    map_dataHeader f _ hf, ← map_headerCommon f p hf]
  rfl

/-- A complete payload. -/
theorem map_payloadDone : p.payloadDone.map f = (p.map f).payloadDone :=
  congrArg (fun q : Packet γ => { q with captureDataPtr := 0 })
    (map_dataEvent f { p with captureHeader := true } hf)

theorem map_frameStep : p.frameStep.map f = (p.map f).frameStep := by
  rw [frameStep, frameStep, apply_ite (Packet.map f), apply_ite (Packet.map f),
    map_headerDone f p hf, map_payloadDone f p hf]
  rfl

/-- The first byte of a frame says by its value what kind it is. -/
theorem map_startFrame (b : β) : (p.startFrame b).map f = (p.map f).startFrame (f b) := by
  have hs : startsStatus (f b) = startsStatus b := by rw [startsStatus, startsStatus, hf]
  rw [startFrame, startFrame, apply_ite (Packet.map f), hs]
  rfl

omit hf [ByteLike β] [ByteLike γ] in
/-- The byte goes into the buffer with its mark. -/
theorem map_storeByte (b : β) : (p.storeByte b).map f = (p.map f).storeByte (f b) := by
  have h : (fun i => f (Function.update p.captureData p.captureDataPtr b i)) =
      Function.update (fun i => f (p.captureData i)) p.captureDataPtr (f b) := by
    funext i
    by_cases hi : i = p.captureDataPtr
    · rw [hi, Function.update_self, Function.update_self]
    · rw [Function.update_of_ne hi, Function.update_of_ne hi]
  simp only [storeByte, map, h]

/-- **One byte, with its mark on or off.** -/
theorem map_captureSm (b : β) : (p.captureSm b).map f = (p.map f).captureSm (f b) := by
  rw [captureSm, captureSm, map_frameStep f _ hf, map_storeByte, map_startFrame f p hf]

/-- **`packet_feed`, with the marks on or off.** -/
theorem map_feed (data : List β) : (p.feed data).map f = (p.map f).feed (data.map f) := by
  induction data generalizing p with
  | nil => rw [List.map_nil, feed_nil, feed_nil]
  | cons b bs ih =>
      by_cases hd : p.done = true
      · have hd' : (p.map f).done = true := hd
        rw [feed_of_done hd, feed_of_done hd']
      · have hn : p.done = false := by simpa using hd
        have hn' : (p.map f).done = false := hn
        rw [List.map_cons, feed_cons hn, feed_cons hn', ih, map_captureSm f p hf]

end Bytes

theorem map_setEnabled (e : Bool) :
    { p with captureEnabled := e }.map f = { p.map f with captureEnabled := e } := rfl

theorem map_announce [ByteLike β] [ByteLike γ] : p.announce.map f = (p.map f).announce := by
  rw [announce, announce, apply_ite (Packet.map f), map_setEnabled, map_captureInfo,
    map_captureInfo]
  rfl

/-- A new packet has an empty buffer, which needs the same zero. -/
theorem map_new [ByteLike β] [ByteLike γ] (hz : f ByteLike.zero = ByteLike.zero)
    (opts : PacketOpts) : (new opts).map f = new opts := by
  simp [new, map, hz]

/-! ## What is written was in the buffer -/

/-- Every packet in the output and in the fold buffer is of the kind
`Q`. -/
structure Stored (Q : List β → Prop) (p : Packet β) : Prop where
  written : ∀ ts data, .epb ts data ∈ p.out → Q data
  folded : ∀ c ∈ p.captureFoldBuf, Q c.data

namespace Stored

variable {Q : List β → Prop} {p}

/-- Informational records are no packets. -/
theorem of_infoOnly {P : Msg → Prop} {p' : Packet β} (h : Stored Q p) (hi : InfoOnly P p p') :
    Stored Q p' := by
  obtain ⟨w, t, s, rfl, -⟩ := hi
  refine ⟨?_, h.folded⟩
  intro ts data hmem
  rcases List.mem_append.mp hmem with hmem | hmem
  · exact h.written ts data hmem
  · obtain ⟨x, -, hx⟩ := List.mem_map.mp hmem
    cases hx

theorem captureInfo (h : Stored Q p) (ts : UInt64) (m : Msg) : Stored Q (captureInfo p ts m) :=
  h.of_infoOnly (InfoOnly.captureInfo (P := fun _ => True) (fun _ _ => trivial) trivial p ts)

theorem lineStateEvent (h : Stored Q p) : Stored Q p.lineStateEvent :=
  h.of_infoOnly (InfoOnly.lineStateEvent (P := fun _ => True) (fun _ _ => trivial) p)

/-- One more packet, of the kind. -/
theorem writePacket (h : Stored Q p) (ts : UInt64) {data : List β} (hd : Q data) :
    Stored Q (writePacket p ts data) := by
  refine ⟨?_, h.folded⟩
  intro ts' data' hmem
  rcases List.mem_append.mp hmem with hmem | hmem
  · exact h.written ts' data' hmem
  · rw [List.mem_singleton] at hmem
    cases hmem
    exact hd

/-- One more frame in the fold buffer. -/
theorem fold (h : Stored Q p) {c : CaptureFrame β} (hc : Q c.data) :
    Stored Q { p with captureFoldBuf := p.captureFoldBuf ++ [c] } := by
  refine ⟨h.written, ?_⟩
  intro d hd
  rcases List.mem_append.mp hd with hd | hd
  · exact h.folded d hd
  · rw [List.mem_singleton] at hd
    subst hd
    exact hc

/-- The fold buffer is written: its frames become packets of the output. -/
theorem flush {buf : List (CaptureFrame β)} {q : Packet β} (h : Stored Q q)
    (hbuf : ∀ c ∈ buf, Q c.data) : Stored Q (buf.foldl flushFrame q) := by
  induction buf generalizing q with
  | nil => exact h
  | cons c cs ih =>
      refine ih ?_ fun d hd => hbuf d (List.mem_cons_of_mem c hd)
      rw [flushFrame]
      split
      · exact h.captureInfo _ _
      · exact h.writePacket _ (hbuf c List.mem_cons_self)

theorem clear (h : Stored Q p) (n : Nat) :
    Stored Q { p with captureFoldCount := n, captureFoldBuf := [] } :=
  ⟨h.written, fun _ hc => absurd hc List.not_mem_nil⟩

/-- `stop_folding` moves frames and makes none. -/
theorem stopFolding (h : Stored Q p) : Stored Q p.stopFolding := by
  have hflush : Stored Q p.flushBuf := (h.clear 0).flush h.folded
  rw [Packet.stopFolding, noteFolded]
  split
  · exact h
  · split
    · exact hflush
    · exact hflush.captureInfo _ _

theorem countGroup (h : Stored Q p) (limit : Nat) : Stored Q (p.countGroup limit) := by
  rw [Packet.countGroup]
  split
  · exact (h.clear _).stopFolding
  · exact h.clear _

theorem checkCaptureLimit (h : Stored Q p) : Stored Q p.checkCaptureLimit := by
  have hd : Stored Q p.limitDown := ⟨h.written, h.folded⟩
  rw [Packet.checkCaptureLimit]
  split
  · have hi := hd.captureInfo p.captureTs .captureLimitReached
    exact ⟨hi.written, hi.folded⟩
  · exact hd

/-- A keep-alive is folded as a frame without bytes, so the kind has to
allow for that. -/
theorem keepaliveEvent (h : Stored Q p) (hnil : Q []) (ts : UInt64) (delta : Int) :
    Stored Q (p.keepaliveEvent ts delta) := by
  rw [Packet.keepaliveEvent]
  split
  · exact h
  · refine Stored.checkCaptureLimit ?_
    split
    · exact h.captureInfo _ _
    · split
      · exact (h.countGroup _).fold hnil
      · exact h.fold hnil

theorem statusTrigger (h : Stored Q p) (trigger : Int) : Stored Q (p.statusTrigger trigger) := by
  have hset : Stored Q (p.setTrigger trigger) := ⟨h.written, h.folded⟩
  have hi := hset.captureInfo p.captureTs (.triggerInput trigger)
  rw [Packet.statusTrigger, noteGate]
  split
  · exact h
  · split
    · exact hi.captureInfo _ _
    · split
      · exact hi.captureInfo _ _
      · exact hi

theorem statusVbus (h : Stored Q p) (vbus : Int) : Stored Q (p.statusVbus vbus) := by
  have hset : Stored Q { p with captureVbus := vbus } := ⟨h.written, h.folded⟩
  rw [Packet.statusVbus]
  split
  · exact h
  · exact hset.captureInfo _ _

theorem statusSpeed (h : Stored Q p) (speed : CaptureSpeed) : Stored Q (p.statusSpeed speed) := by
  have hset : Stored Q { p with captureSpeedIn := some speed } := ⟨h.written, h.folded⟩
  rw [Packet.statusSpeed]
  split
  · exact h
  · split
    · exact hset.captureInfo _ _
    · exact hset

theorem statusLs (h : Stored Q p) (hnil : Q []) (ls : Int) : Stored Q (p.statusLs ls) := by
  rw [Packet.statusLs, lineChange]
  split
  · exact h
  · split
    · have hset : Stored Q { p with captureLs := ls, captureSavedLs := lsInvalid } :=
        ⟨h.written, h.folded⟩
      exact hset.keepaliveEvent hnil _ _
    · have hset : Stored Q { p with captureLs := ls } := ⟨h.written, h.folded⟩
      exact ⟨hset.lineStateEvent.written, hset.lineStateEvent.folded⟩

/-- A status brings informational records and keep-alives. -/
theorem statusEvent (h : Stored Q p) (hnil : Q []) (ls vbus trigger : Int) (speed : CaptureSpeed) :
    Stored Q (p.statusEvent ls vbus trigger speed) :=
  (((h.statusTrigger trigger).statusVbus vbus).statusSpeed speed).statusLs hnil ls

theorem dataPrepare (h : Stored Q p) : Stored Q p.dataPrepare := by
  have h₁ : Stored Q p.lineStateEvent.dataFlush := by
    rw [dataFlush]
    split
    · exact h.lineStateEvent.stopFolding
    · exact h.lineStateEvent
  have h₂ : Stored Q p.lineStateEvent.dataFlush.noteOverflow := by
    rw [noteOverflow]
    split
    · exact h₁.captureInfo _ _
    · exact h₁
  rw [Packet.dataPrepare, notePhyError]
  split
  · exact h₂.captureInfo _ _
  · exact h₂

variable [ByteLike β]

/-- The payload is what is written or folded, whichever it is. -/
theorem dataWrite (h : Stored Q p) (hp : Q p.payload) : Stored Q p.dataWrite := by
  rw [Packet.dataWrite]
  split
  · exact h.writePacket _ hp
  · split
    · split
      · exact h.fold hp
      · split
        · exact (h.countGroup _).fold hp
        · exact h.stopFolding.writePacket _ hp
    · split
      · exact h.fold hp
      · exact h.writePacket _ hp

/-- `data_event` writes or folds the payload, and nothing else. -/
theorem dataEvent (h : Stored Q p) (hp : Q p.payload) : Stored Q p.dataEvent := by
  have hpay : p.dataPrepare.payload = p.payload := by
    rw [payload, payload, (emitted_dataPrepare p).size, (emitted_dataPrepare p).dataBytes]
  rw [Packet.dataEvent]
  split
  · exact h
  · exact (h.dataPrepare.dataWrite (hpay ▸ hp)).checkCaptureLimit

/-- A header brings informational records only. -/
theorem headerCommon (h : Stored Q p) : Stored Q p.headerCommon := by
  have hcheck : ∀ t z, Stored Q (p.checkHeader t z) := by
    intro t z
    rcases checkHeader_eq p t z with he | ⟨q, hq, he⟩
    · rw [he]
      exact h
    · rw [he]
      exact ⟨(h.of_infoOnly hq).written, (h.of_infoOnly hq).folded⟩
  have hc := hcheck (flag (p.byteAt 0) 0x40) (flag (p.byteAt 0) 0x20)
  have hclock : Stored Q (p.checkHeader (flag (p.byteAt 0) 0x40)
      (flag (p.byteAt 0) 0x20)).headerClock := ⟨hc.written, hc.folded⟩
  rw [Packet.headerCommon, headerTimeout, timeoutEvent]
  split
  · split
    · exact hclock.captureInfo _ _
    · exact hclock
  · exact hclock

/-- A header is complete: no packet is written, and at most a keep-alive
is folded. -/
theorem headerDone (h : Stored Q p) (hnil : Q []) : Stored Q p.headerDone := by
  have hcommon := h.headerCommon
  refine headerDone_cases (I := Stored Q) ?_ (fun q hq => ?_) (fun _ => ?_)
  · have hs := hcommon.statusEvent hnil (p.headerCommon.byteAt 3 &&& 0x0f).toNat
      (flag (p.headerCommon.byteAt 3) 0x10) (flag (p.headerCommon.byteAt 3) 0x20)
      (speedField (p.headerCommon.byteAt 3))
    exact ⟨hs.written, hs.folded⟩
  · have hs := hcommon.of_infoOnly hq
    exact ⟨hs.written, hs.folded⟩
  · exact ⟨hcommon.written, hcommon.folded⟩

end Stored

/-! ## One origin per packet -/

/-- All bytes have the same mark. -/
def OneOrigin (origin : β → Nat) (data : List β) : Prop := ∃ k, ∀ b ∈ data, origin b = k

/-- The packets written or folded have one origin each; in the payload
phase, what is in the buffer has the current mark. -/
structure Unspliced (origin : β → Nat) (k : Nat) (p : Packet β) : Prop where
  stored : Stored (OneOrigin origin) p
  payload : p.captureHeader = false → ∀ i < p.captureDataPtr, origin (p.captureData i) = k

/-- No byte of an unfinished payload is in the buffer. -/
def Between (p : Packet β) : Prop := p.captureHeader = true ∨ p.captureDataPtr = 0

instance (p : Packet β) : Decidable p.Between := inferInstanceAs (Decidable (_ ∨ _))

section Unspliced

variable {origin : β → Nat} {k : Nat} {p : Packet β}

/-- A keep-alive splices nothing. -/
theorem oneOrigin_nil : OneOrigin origin [] := ⟨0, fun _ hb => absurd hb List.not_mem_nil⟩

theorem Unspliced.captureInfo (h : Unspliced origin k p) (ts : UInt64) (m : Msg) :
    Unspliced origin k (captureInfo p ts m) := by
  refine ⟨h.stored.captureInfo ts m, ?_⟩
  rw [captureInfo_eq]
  exact h.payload

/-- What is announced at the start is informational. -/
theorem Unspliced.announce (h : Unspliced origin k p) : Unspliced origin k p.announce := by
  have hset : Unspliced origin k { p with done := false } :=
    ⟨⟨h.stored.written, h.stored.folded⟩, h.payload⟩
  rw [Packet.announce]
  split
  · have hi := hset.captureInfo 0 .startingCapture
    exact ⟨⟨hi.stored.written, hi.stored.folded⟩, hi.payload⟩
  · exact hset.captureInfo _ _

/-- A reported loss between two payloads: the next byte has a new mark
and nothing of the old one is waiting. -/
theorem Unspliced.rsync (h : Unspliced origin k p) (hb : Between p) :
    Unspliced origin (k + 1) p.rsync := by
  have hi := h.captureInfo p.captureTs .linkLoss
  refine ⟨hi.stored, ?_⟩
  rw [Packet.rsync, captureInfo_eq]
  intro hh i hi'
  rcases hb with hb | hb
  · exact absurd hb (Bool.eq_false_iff.mp hh)
  · have hi0 : i < p.captureDataPtr := hi'
    rw [hb] at hi0
    exact absurd hi0 (Nat.not_lt_zero i)

variable [ByteLike β]

/-- **One byte of the current origin splices nothing.** -/
theorem Unspliced.captureSm (h : Unspliced origin k p) {b : β} (hb : origin b = k) :
    Unspliced origin k (p.captureSm b) := by
  have hst : Unspliced origin k ((p.startFrame b).storeByte b) := by
    have hstart : Unspliced origin k (p.startFrame b) := by
      rw [startFrame]
      split
      · exact ⟨⟨h.stored.written, h.stored.folded⟩, h.payload⟩
      · exact h
    refine ⟨⟨hstart.stored.written, hstart.stored.folded⟩, ?_⟩
    intro hh i hi
    have hi' : i < (p.startFrame b).captureDataPtr + 1 := hi
    show origin (Function.update (p.startFrame b).captureData (p.startFrame b).captureDataPtr b i) = k
    by_cases hlast : i = (p.startFrame b).captureDataPtr
    · rw [hlast, Function.update_self, hb]
    · rw [Function.update_of_ne hlast]
      exact hstart.payload hh i (by omega)
  rw [Packet.captureSm, frameStep]
  split
  · exact hst
  · rename_i hfull
    split
    · refine ⟨hst.stored.headerDone oneOrigin_nil, ?_⟩
      intro _ i hi
      rw [headerDone_dataPtr] at hi
      exact absurd hi (Nat.not_lt_zero i)
    · -- the payload is complete, and every byte of it is in the buffer
      rename_i hh
      have hpay : OneOrigin origin ((p.startFrame b).storeByte b).payload := by
        refine ⟨k, ?_⟩
        intro x hx
        obtain ⟨i, hi, rfl⟩ := List.mem_map.mp hx
        exact hst.payload (by simpa using hh) i
          (Nat.lt_of_lt_of_le (List.mem_range.mp hi) (Int.toNat_le.mpr (not_lt.mp hfull)))
      have hset : Stored (OneOrigin origin)
          { (p.startFrame b).storeByte b with captureHeader := true } :=
        ⟨hst.stored.written, hst.stored.folded⟩
      have hd := hset.dataEvent hpay
      exact ⟨⟨hd.written, hd.folded⟩, fun _ i hi => absurd hi (Nat.not_lt_zero i)⟩

/-- **Bytes of one origin**, as many as there are. -/
theorem Unspliced.feed {data : List β} {p : Packet β} (h : Unspliced origin k p)
    (hdata : ∀ b ∈ data, origin b = k) : Unspliced origin k (p.feed data) := by
  refine feed_induction (I := Unspliced origin k) (fun q b hb _ hq => ?_) h
  exact hq.captureSm (hdata b hb)

/-- At the start there is nothing to splice. -/
theorem unspliced_new (opts : PacketOpts) : Unspliced origin 0 (new opts : Packet β) where
  stored := ⟨fun _ _ h => absurd h List.not_mem_nil, fun _ hc => absurd hc List.not_mem_nil⟩
  payload := nofun

end Unspliced

end Packet

end UsbSniffer
