import UsbSniffer.Packet.Model

/-!
# The gen1 capture engine

`gen1/capture.c`, from which `packet.c` was ported. Its static variables
are the fields of `struct packet` (`capture_trigger` is
`captureTriggerInput`, `capture_speed` is `captureSpeedIn`), so that the
updates the two have in common are shared; what calls `capture_info`,
tests a time or a speed, or ends the program is written out here.

`exit(0)` ends a run with the output so far: such a function returns
`Except.error` of the state it exits in.
-/

namespace UsbSniffer.Gen1

/-- The static variables of `capture.c`; `done` is not one of them and
stays false. -/
abbrev Capture := Packet UInt8

/-- A state to go on from, or the state the program exited in. -/
abbrev Run := Except Capture Capture

/-! ## Records -/

/-- `write_str`. -/
def writeStr (c : Capture) (ts : UInt64) (m : Msg) : Capture :=
  { c with out := c.out ++ [.info ts m], captureLastTs := ts }

/-- `write_packet`. -/
def writePacket (c : Capture) (ts : UInt64) (data : List UInt8) : Capture :=
  { c with out := c.out ++ [.epb ts data], captureLastTs := ts }

/-- The text `line_state_event` composes for the saved line state. -/
def lineStateMsg (c : Capture) : Msg :=
  let dp := c.captureSavedLs.toNat % 4
  let dm := c.captureSavedLs.toNat / 4 % 4
  let delta := castInt (c.captureTs - c.captureSavedTs)
  let name : LineName :=
    if dp = 0 ∧ dm = 0 then .se0
    else if dp = 0 then (if c.captureSpeedIn = some .ls then .j else .k)
    else if dm = 0 then (if c.captureSpeedIn = some .ls then .k else .j)
    else .undefined dp dm
  .lineState name (if delta < lsDeltaThreshold then some delta else none)

/-- `capture_info`, with the two functions it calls before it writes. -/
def infoVia (lineStateEvent stopFolding : Capture → Capture) (c : Capture) (ts : UInt64)
    (m : Msg) : Capture :=
  writeStr (stopFolding (lineStateEvent c)) ts m

mutual

/-- `line_state_event`, to a depth of calls: it calls `capture_info`,
which calls it and `stop_folding`. -/
def lineStateEventDepth : Nat → Capture → Capture
  | 0, c => c
  | depth + 1, c =>
      if c.captureSavedLs = lsInvalid then c
      else
        let c₁ := { c with captureSavedLs := lsInvalid }
        if c.opts.excludeLineState then c₁
        else
          infoVia (lineStateEventDepth depth) (stopFoldingDepth depth) c₁ c.captureSavedTs
            (lineStateMsg c)

/-- `stop_folding`, to a depth of calls: the summary first, then the
frames with their own times. -/
def stopFoldingDepth : Nat → Capture → Capture
  | 0, c => c
  | depth + 1, c =>
      if c.captureFoldCount = 0 ∧ c.captureFoldBuf.length = 0 then c
      else
        let info := infoVia (lineStateEventDepth depth) (stopFoldingDepth depth)
        let c₁ := { c with captureFoldCount := 0, captureFoldBuf := [] }
        let c₂ :=
          if c.captureFoldCount = 0 then c₁ else info c₁ c.captureTs (.folded c.captureFoldCount)
        c.captureFoldBuf.foldl
          (fun c f => if f.size < 0 then info c f.ts .keepAlive else writePacket c f.ts f.data) c₂

end

/-- `line_state_event`; its inner calls find nothing to do, so two levels
are all there are (`lineStateEventDepth_eq`). -/
def lineStateEvent (c : Capture) : Capture := lineStateEventDepth 2 c

/-- `stop_folding` (`stopFoldingDepth_eq`). -/
def stopFolding (c : Capture) : Capture := stopFoldingDepth 2 c

/-- `capture_info`. -/
def captureInfo (c : Capture) (ts : UInt64) (m : Msg) : Capture :=
  infoVia lineStateEvent stopFolding c ts m

/-- `write_keepalive`. -/
def writeKeepalive (c : Capture) (ts : UInt64) : Capture := captureInfo c ts .keepAlive

/-- `timeout_event`. -/
def timeoutEvent (c : Capture) : Capture :=
  if c.captureEnabled then captureInfo c c.captureTs .periodicUpdate else c

/-! ## Events -/

/-- `check_capture_limit`. -/
def checkCaptureLimit (c : Capture) : Run :=
  if c.limitDown.opts.captureLimit = 0 then
    .error (captureInfo c.limitDown c.captureTs .captureLimitReached)
  else .ok c.limitDown

/-- A group given up, and a flush when the count reaches `limit`. -/
def countGroup (c : Capture) (limit : Nat) : Capture :=
  if c.dropGroup.captureFoldCount = limit then stopFolding c.dropGroup else c.dropGroup

/-- `keepalive_event`. -/
def keepaliveEvent (c : Capture) (ts : UInt64) (delta : Int) : Run :=
  if !c.captureEnabled then .ok c
  else
    checkCaptureLimit <|
      if !c.opts.foldEmpty then writeKeepalive c ts
      else if c.captureFoldBuf.length ≠ 0 then
        (countGroup c foldLimitLsFs).foldKeepalive ts delta
      else c.foldKeepalive ts delta

/-- The record of a gate that opened or closed. -/
def noteGate (c : Capture) (wasEnabled : Bool) : Capture :=
  if c.captureEnabled && !wasEnabled then captureInfo c c.captureTs .startingCapture
  else if wasEnabled && !c.captureEnabled then captureInfo c c.captureTs .waitingForTrigger
  else c

/-- The trigger part of `status_event`. -/
def statusTrigger (c : Capture) (trigger : Int) : Capture :=
  if c.captureTriggerInput = trigger then c
  else
    noteGate (captureInfo (c.setTrigger trigger) c.captureTs (.triggerInput trigger))
      c.captureEnabled

/-- The VBUS part of `status_event`. -/
def statusVbus (c : Capture) (vbus : Int) : Capture :=
  if c.captureVbus = vbus then c
  else captureInfo { c with captureVbus := vbus } c.captureTs (.vbus (vbus != 0))

/-- The speed part of `status_event`. -/
def statusSpeed (c : Capture) (speed : CaptureSpeed) : Capture :=
  if c.captureSpeedIn = some speed then c
  else if c.captureEnabled then
    captureInfo { c with captureSpeedIn := some speed } c.captureTs (Packet.speedMsg speed)
  else { c with captureSpeedIn := some speed }

/-- The test for a keep-alive in `status_event`: `delta` is a `u64`. -/
def isKeepalive (c : Capture) (ls : Int) : Bool :=
  c.captureSpeedIn == some .ls && c.captureSavedLs == lsSe0 && ls == lsJ3 &&
    (minKeepaliveDuration < (c.captureTs - c.captureSavedTs).toNat &&
      (c.captureTs - c.captureSavedTs).toNat < maxKeepaliveDuration)

/-- A line state that changed to `ls`. -/
def lineChange (c : Capture) (ls : Int) : Run :=
  if isKeepalive c ls then
    keepaliveEvent { c with captureSavedLs := lsInvalid } c.captureSavedTs c.savedDelta
  else .ok ((lineStateEvent c).saveLine ls)

/-- The line-state part of `status_event`. -/
def statusLs (c : Capture) (ls : Int) : Run :=
  if c.captureLs = ls then .ok c else lineChange { c with captureLs := ls } ls

/-- `status_event`. -/
def statusEvent (c : Capture) (ls vbus trigger : Int) (speed : CaptureSpeed) : Run :=
  statusLs (statusSpeed (statusVbus (statusTrigger c trigger) vbus) speed) ls

/-- `allow_sof` of `data_event`. -/
def allowSof (c : Capture) : Bool := c.captureSpeedIn != some .ls

/-- The limit a SOF is counted against. -/
def sofLimit (c : Capture) : Nat :=
  if c.captureSpeedIn = some .hs then foldLimitHs else foldLimitLsFs

/-- The write-or-fold decision of `data_event`. -/
def dataWrite (c : Capture) : Capture :=
  if c.frameError || !c.opts.foldEmpty then writePacket c c.captureTs c.payload
  else if c.captureFoldBuf.length ≠ 0 then
    if c.framePid = pidIn ∨ c.framePid = pidNak then c.foldPacket c.captureTs c.payload
    else if c.framePid = pidSof ∧ allowSof c then
      (countGroup c (sofLimit c)).foldPacket c.captureTs c.payload
    else writePacket (stopFolding c) c.captureTs c.payload
  else if c.framePid = pidSof ∧ allowSof c then c.foldPacket c.captureTs c.payload
  else writePacket c c.captureTs c.payload

/-- The flush in front of a frame with an error flag, or of a full
buffer. -/
def dataFlush (c : Capture) : Capture :=
  if c.captureOverflow || c.frameError || c.captureFoldBuf.length == foldBufSize then
    stopFolding c
  else c

/-- The overflow record. -/
def noteOverflow (c : Capture) : Capture :=
  if c.captureOverflow then captureInfo c c.captureTs .hardwareOverflow else c

/-- The PHY error record. -/
def notePhyError (c : Capture) : Capture :=
  if c.captureDataError then captureInfo c c.captureTs .phyError else c

/-- `data_event`. -/
def dataEvent (c : Capture) : Run :=
  if !c.captureEnabled then .ok c
  else checkCaptureLimit (dataWrite (notePhyError (noteOverflow (dataFlush (lineStateEvent c)))))

/-! ## The frame assembler -/

/-- `desync_error`: two records, and the end. -/
def desyncError (c : Capture) : Run :=
  let c₁ := captureInfo c c.captureTs .desynchronization
  .error (captureInfo c₁ c₁.captureTs (.packetHeader (c₁.dataBytes c₁.captureSize.toNat)))

/-- The toggle record of `check_header`. -/
def noteToggle (c : Capture) (toggle : Nat) : Capture :=
  if toggle ≠ c.captureToggle then
    captureInfo c c.captureTs (.toggleError toggle c.captureToggle)
  else c

/-- The zero-bit record of `check_header`. -/
def noteZeroBit (c : Capture) (zeroBit : Nat) : Capture :=
  if zeroBit ≠ 0 then captureInfo c c.captureTs .zeroBitError else c

/-- `check_header`. -/
def checkHeader (c : Capture) (toggle zeroBit : Nat) : Run :=
  if toggle = c.captureToggle ∧ zeroBit = 0 then .ok c
  else desyncError (noteZeroBit (noteToggle c toggle) zeroBit)

/-- `check_data_size`. -/
def checkDataSize (c : Capture) (size : Nat) : Run :=
  if dataHeaderSize ≤ size ∧ size ≤ maxDataSize then .ok c
  else desyncError (captureInfo c c.captureTs (.dataSizeError size))

/-- The 2 s update: the difference is a `u64`. -/
def headerTimeout (c : Capture) : Capture :=
  if ((c.captureTs - c.captureLastTs).toNat : Int) > updateInterval then timeoutEvent c else c

/-- A complete header. -/
def headerDone (c : Capture) : Run := do
  let c ← checkHeader c (Packet.flag (c.byteAt 0) 0x40) (Packet.flag (c.byteAt 0) 0x20)
  let c := headerTimeout c.headerClock
  if c.captureStatus then
    let c ← statusEvent c (c.byteAt 3 &&& 0x0f).toNat (Packet.flag (c.byteAt 3) 0x10)
      (Packet.flag (c.byteAt 3) 0x20) (Packet.speedField (c.byteAt 3))
    return { c with captureDataPtr := 0 }
  else
    let c ← checkDataSize c c.headerSize
    return c.startPayload

/-- A complete payload. -/
def payloadDone (c : Capture) : Run := do
  let c ← dataEvent { c with captureHeader := true }
  return { c with captureDataPtr := 0 }

/-- `capture_sm` once the byte is stored. -/
def frameStep (c : Capture) : Run :=
  if (c.captureDataPtr : Int) < c.captureSize then .ok c
  else if c.captureHeader then headerDone c
  else payloadDone c

/-- `capture_sm`. -/
def captureSm (c : Capture) (byte : UInt8) : Run := frameStep ((c.startFrame byte).storeByte byte)

/-- `capture_callback`. -/
def captureCallback : Capture → List UInt8 → Run
  | c, [] => .ok c
  | c, b :: bs => do
      let c ← captureSm c b
      captureCallback c bs

/-- The announcement at the end of `capture_start`, over the static
variables as the program starts with them. -/
def announce (opts : PacketOpts) : Capture :=
  let c : Capture := Packet.new opts
  if opts.captureTrigger = .disabled then
    { captureInfo c 0 .startingCapture with captureEnabled := true }
  else captureInfo c c.captureTs .waitingForTrigger

/-- `capture_callback` on one chunk after the other, until it exits. -/
def capture (opts : PacketOpts) (chunks : List (List UInt8)) : Run :=
  chunks.foldlM captureCallback (announce opts)

/-- The records written, whether the program exited or not. -/
def Run.out : Run → List (Record UInt8)
  | .ok c => c.out
  | .error c => c.out

/-! ## Texts -/

/-- The texts of `capture.c`. -/
def text : Msg → String
  | .desynchronization => "Error: protocol desynchronization, stopping the capture"
  | m => m.fullText

/-! ## The depth of calls

`capture_info` clears what it is about to write before it calls itself
through `line_state_event` and `stop_folding`, so the recursion ends. -/

/-- Nothing is folded. -/
structure Empty (c : Capture) : Prop where
  count : c.captureFoldCount = 0
  buf : c.captureFoldBuf = []

/-- Nothing is folded, and no line state is saved. -/
structure Settled (c : Capture) : Prop extends Empty c where
  saved : c.captureSavedLs = lsInvalid

theorem lineStateEventDepth_invalid {c : Capture} (h : c.captureSavedLs = lsInvalid)
    (depth : Nat) : lineStateEventDepth depth c = c := by
  cases depth with
  | zero => rfl
  | succ depth => rw [lineStateEventDepth, if_pos h]

theorem stopFoldingDepth_empty {c : Capture} (h : Empty c) (depth : Nat) :
    stopFoldingDepth depth c = c := by
  cases depth with
  | zero => rfl
  | succ depth => rw [stopFoldingDepth, if_pos ⟨h.count, by rw [h.buf]; rfl⟩]

theorem infoVia_settled {c : Capture} (h : Settled c) (depth : Nat) (ts : UInt64) (m : Msg) :
    infoVia (lineStateEventDepth depth) (stopFoldingDepth depth) c ts m = writeStr c ts m := by
  rw [infoVia, lineStateEventDepth_invalid h.saved, stopFoldingDepth_empty h.toEmpty]

/-- With nothing folded, the line state is written in one go. -/
theorem lineStateEventDepth_empty {c : Capture} (h : Empty c) (depth : Nat) :
    lineStateEventDepth (depth + 1) c =
      if c.captureSavedLs = lsInvalid then c
      else if c.opts.excludeLineState then { c with captureSavedLs := lsInvalid }
      else writeStr { c with captureSavedLs := lsInvalid } c.captureSavedTs (lineStateMsg c) := by
  have hset : Settled { c with captureSavedLs := lsInvalid } := ⟨⟨h.count, h.buf⟩, rfl⟩
  rw [lineStateEventDepth]
  simp only [infoVia_settled hset]

theorem Empty.settled {c : Capture} (h : Empty c) (depth : Nat) :
    Settled (lineStateEventDepth (depth + 1) c) := by
  rw [lineStateEventDepth_empty h]
  split
  · rename_i hs
    exact ⟨h, hs⟩
  · split
    · exact ⟨⟨h.count, h.buf⟩, rfl⟩
    · exact ⟨⟨h.count, h.buf⟩, rfl⟩

theorem infoVia_empty {c : Capture} (h : Empty c) (depth : Nat) (ts : UInt64) (m : Msg) :
    infoVia (lineStateEventDepth (depth + 1)) (stopFoldingDepth (depth + 1)) c ts m =
      writeStr (lineStateEventDepth 1 c) ts m := by
  rw [infoVia, stopFoldingDepth_empty (h.settled depth).toEmpty, lineStateEventDepth_empty h,
    lineStateEventDepth_empty h]

/-- Two folds that do the same from the states they come through. -/
theorem foldl_congr_of_keeps {σ α : Type} {I : σ → Prop} {f g : σ → α → σ}
    (hfg : ∀ s x, I s → f s x = g s x) (hI : ∀ s x, I s → I (g s x)) {s : σ} (h : I s)
    (xs : List α) : xs.foldl f s = xs.foldl g s := by
  induction xs generalizing s with
  | nil => rfl
  | cons x xs ih =>
      rw [List.foldl_cons, List.foldl_cons, hfg s x h]
      exact ih (hI s x h)

/-- With no line state saved, one level of `stop_folding` is all. -/
theorem stopFoldingDepth_settled {c : Capture} (hs : c.captureSavedLs = lsInvalid)
    (depth : Nat) : stopFoldingDepth (depth + 1) c = stopFoldingDepth 1 c := by
  have h₁ : Settled { c with captureFoldCount := 0, captureFoldBuf := [] } := ⟨⟨rfl, rfl⟩, hs⟩
  rw [stopFoldingDepth, stopFoldingDepth]
  split
  · rfl
  · simp only [infoVia_settled h₁]
    refine foldl_congr_of_keeps (I := Settled) (fun s f hset => ?_) (fun s f hset => ?_) ?_ _
    · simp only [infoVia_settled hset]
    · simp only [infoVia_settled hset]
      split
      · exact ⟨⟨hset.count, hset.buf⟩, hset.saved⟩
      · exact ⟨⟨hset.count, hset.buf⟩, hset.saved⟩
    · split
      · exact h₁
      · exact ⟨⟨rfl, rfl⟩, hs⟩

/-- **The recursion ends**: more depth changes nothing in
`line_state_event`. -/
theorem lineStateEventDepth_eq (c : Capture) (depth : Nat) :
    lineStateEventDepth (depth + 2) c = lineStateEvent c := by
  rw [lineStateEvent, lineStateEventDepth, lineStateEventDepth]
  simp only [infoVia, lineStateEventDepth_invalid, stopFoldingDepth_settled]

/-- More depth changes nothing in `stop_folding`. -/
theorem stopFoldingDepth_eq (c : Capture) (depth : Nat) :
    stopFoldingDepth (depth + 2) c = stopFolding c := by
  have h₁ : Empty { c with captureFoldCount := 0, captureFoldBuf := [] } := ⟨rfl, rfl⟩
  have hkeep : ∀ s ts m, Empty s → Empty (writeStr (lineStateEventDepth 1 s) ts m) := by
    intro s ts m hs
    have hset := hs.settled 0
    exact ⟨hset.count, hset.buf⟩
  rw [stopFolding, stopFoldingDepth, stopFoldingDepth]
  split
  · rfl
  · simp only [infoVia_empty h₁]
    refine foldl_congr_of_keeps (I := Empty) (fun s f hs => ?_) (fun s f hs => ?_) ?_ _
    · simp only [infoVia_empty hs]
    · simp only [infoVia_empty hs]
      split
      · exact hkeep s _ _ hs
      · exact ⟨hs.count, hs.buf⟩
    · split
      · exact h₁
      · exact hkeep _ _ _ h₁

end UsbSniffer.Gen1
