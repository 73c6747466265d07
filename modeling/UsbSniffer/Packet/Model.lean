import UsbSniffer.Packet.Message

/-!
# The frame layer as the code has it

`packet.c`: the byte-at-a-time frame assembler, the events it raises
(status, data, keep-alive), the trigger gate, folding of empty frames and
the capture limit. Every function is the source's, as a function from
the packet state to the packet state; what it hands to the pcapng writer
is appended to `out`.

The state is generic in the type `β` of a captured byte (`ByteLike`):
the code runs at `UInt8`, and a byte that also carries where it came from
runs through the same functions.

Counters of type `int` and `s64` are unbounded here: `capture_fold_count`
stays below the number of frames and `capture_limit` moves one down per
capture event, so no run of fewer than `2 ^ 31` frames can tell.
Timestamps are `u64` and wrap as in C.
-/

namespace UsbSniffer

/-- A captured byte, and the zero the buffers start with. -/
class ByteLike (β : Type) where
  val : β → UInt8
  zero : β

instance : ByteLike UInt8 := ⟨id, 0⟩

/-- `CaptureTrigger_*`. -/
inductive CaptureTrigger where
  | disabled
  | low
  | high
  | falling
  | rising
  deriving DecidableEq, Repr

/-- `packet_opts`. -/
structure PacketOpts where
  foldEmpty : Bool
  excludeLineState : Bool
  captureSpeed : CaptureSpeed
  captureTrigger : CaptureTrigger
  captureLimit : Int
  deriving DecidableEq, Repr

/-- The options of a capture with folding and nothing else. -/
def foldOpts : PacketOpts where
  foldEmpty := true
  excludeLineState := false
  captureSpeed := .reset
  captureTrigger := .disabled
  captureLimit := -1

/-- `CaptureFrame`: a folded packet, or (negative size) a keep-alive
whose data bytes are never read. -/
structure CaptureFrame (β : Type) where
  ts : UInt64
  size : Int
  data : List β

/-- `struct packet`. `captureFoldBuf` holds the entries below
`capture_fold_buf_ptr`; `captureSpeedIn = none` and the `-1` of the other
bus fields mean "not seen yet". -/
structure Packet (β : Type) where
  opts : PacketOpts
  out : List (Record β)
  done : Bool
  captureData : Nat → β
  captureDataPtr : Nat
  captureSize : Int
  captureHeader : Bool
  captureStatus : Bool
  captureToggle : Nat
  captureLs : Int
  captureVbus : Int
  captureTriggerInput : Int
  captureSpeedIn : Option CaptureSpeed
  captureEnabled : Bool
  captureTsInt : UInt64
  captureTs : UInt64
  captureLastTs : UInt64
  captureOverflow : Bool
  captureCrcError : Bool
  captureDataError : Bool
  captureDuration : Nat
  captureFoldBuf : List (CaptureFrame β)
  captureFoldCount : Nat
  captureSavedLs : Int
  captureSavedTs : UInt64

/-! ## Constants -/

def timeMs : Int := 1000000
def updateInterval : Int := 2000 * timeMs
def lsDeltaThreshold : Int := 10 * timeMs
def dataHeaderSize : Nat := 7
def statusHeaderSize : Nat := 4
def foldBufSize : Nat := 256
def maxDataSize : Nat := 1280
def pidSof : UInt8 := 0xa5
def pidIn : UInt8 := 0x69
def pidNak : UInt8 := 0x5a
def foldLimitLsFs : Nat := 1000
def foldLimitHs : Nat := 8000
def minKeepaliveDuration : Int := 1000
def maxKeepaliveDuration : Int := 2000
def lsInvalid : Int := -1
def lsSe0 : Int := 0
def lsJ3 : Int := 12

/-- `(int)x`: the low 32 bits, as a signed number. -/
def castInt (x : UInt64) : Int :=
  let r : Nat := x.toNat % 2 ^ 32
  if r < 2 ^ 31 then (r : Int) else (r : Int) - 2 ^ 32

/-- `(s64)x`. -/
def castS64 (x : UInt64) : Int :=
  if x.toNat < 2 ^ 63 then (x.toNat : Int) else (x.toNat : Int) - 2 ^ 64

namespace Packet

variable {β : Type}

/-- The first `n` bytes of `capture_data`. -/
def dataBytes (p : Packet β) (n : Nat) : List β := (List.range n).map p.captureData

/-- `effective_speed`. -/
def effectiveSpeed (p : Packet β) : Option CaptureSpeed :=
  if p.captureSpeedIn = some .ls ∧ p.opts.captureSpeed ≠ .reset ∧ p.opts.captureSpeed ≠ .ls then
    some p.opts.captureSpeed
  else p.captureSpeedIn

/-! ## Records -/

/-- The last two statements of `capture_info`. -/
def writeInfo (p : Packet β) (ts : UInt64) (m : Msg) : Packet β :=
  { p with out := p.out ++ [.info ts m], captureLastTs := ts }

/-- The text `line_state_event` composes for the saved line state. -/
def lineStateMsg (p : Packet β) : Msg :=
  let dp := p.captureSavedLs.toNat % 4
  let dm := p.captureSavedLs.toNat / 4 % 4
  let delta := castInt (p.captureTs - p.captureSavedTs)
  let name : LineName :=
    if dp = 0 ∧ dm = 0 then .se0
    else if dp = 0 then (if p.effectiveSpeed = some .ls then .j else .k)
    else if dm = 0 then (if p.effectiveSpeed = some .ls then .k else .j)
    else .undefined dp dm
  .lineState name (if delta < lsDeltaThreshold then some delta else none)

/-- `line_state_event`, to a depth of calls: its `capture_info` calls
`line_state_event` again before it writes. -/
def lineStateEventDepth : Nat → Packet β → Packet β
  | 0, p => p
  | depth + 1, p =>
      if p.captureSavedLs = lsInvalid then p
      else
        let p₁ := { p with captureSavedLs := lsInvalid }
        if p.opts.excludeLineState then p₁
        else writeInfo (lineStateEventDepth depth p₁) p.captureSavedTs p.lineStateMsg

/-- `line_state_event`: the inner call finds no saved line state, so two
levels are all there are (`lineStateEventDepth_eq`). -/
def lineStateEvent (p : Packet β) : Packet β := lineStateEventDepth 2 p

/-- `capture_info`. -/
def captureInfo (p : Packet β) (ts : UInt64) (m : Msg) : Packet β :=
  writeInfo (lineStateEvent p) ts m

/-- `write_packet`. -/
def writePacket (p : Packet β) (ts : UInt64) (data : List β) : Packet β :=
  { p with out := p.out ++ [.epb ts data], captureLastTs := ts }

/-- `write_keepalive`. -/
def writeKeepalive (p : Packet β) (ts : UInt64) : Packet β := captureInfo p ts .keepAlive

/-- `timeout_event`. -/
def timeoutEvent (p : Packet β) : Packet β :=
  if p.captureEnabled then captureInfo p p.captureTs .periodicUpdate else p

/-! ## Folding -/

/-- One turn of the flush loop in `stop_folding`. -/
def flushFrame (p : Packet β) (f : CaptureFrame β) : Packet β :=
  let ts := if f.ts < p.captureLastTs then p.captureLastTs else f.ts
  if f.size < 0 then writeKeepalive p ts else writePacket p ts f.data

/-- The flush loop of `stop_folding`, after count and buffer are reset. -/
def flushBuf (p : Packet β) : Packet β :=
  p.captureFoldBuf.foldl flushFrame { p with captureFoldCount := 0, captureFoldBuf := [] }

/-- The summary record of `stop_folding`. -/
def noteFolded (p : Packet β) (count : Nat) : Packet β :=
  if count = 0 then p else captureInfo p p.captureTs (.folded count)

/-- `stop_folding`. -/
def stopFolding (p : Packet β) : Packet β :=
  if p.captureFoldCount = 0 ∧ p.captureFoldBuf.length = 0 then p
  else noteFolded (flushBuf p) p.captureFoldCount

/-- `fold_packet`. -/
def foldPacket (p : Packet β) (ts : UInt64) (data : List β) : Packet β :=
  { p with captureFoldBuf := p.captureFoldBuf ++ [⟨ts, data.length, data⟩] }

/-- `fold_keepalive`. -/
def foldKeepalive (p : Packet β) (ts : UInt64) (delta : Int) : Packet β :=
  { p with captureFoldBuf := p.captureFoldBuf ++ [⟨ts, -delta, []⟩] }

/-- `p->opts.capture_limit--`. -/
def limitDown (p : Packet β) : Packet β :=
  { p with opts := { p.opts with captureLimit := p.opts.captureLimit - 1 } }

/-- `check_capture_limit`. -/
def checkCaptureLimit (p : Packet β) : Packet β :=
  if (limitDown p).opts.captureLimit = 0 then
    { captureInfo (limitDown p) p.captureTs .captureLimitReached with done := true }
  else limitDown p

/-- The held group is given up for a count: `count++`, `ptr = 0`. -/
def dropGroup (p : Packet β) : Packet β :=
  { p with captureFoldCount := p.captureFoldCount + 1, captureFoldBuf := [] }

/-- A group given up, and a flush when the count reaches `limit`. -/
def countGroup (p : Packet β) (limit : Nat) : Packet β :=
  if (dropGroup p).captureFoldCount = limit then stopFolding (dropGroup p) else dropGroup p

/-! ## Events -/

/-- `keepalive_event`. -/
def keepaliveEvent (p : Packet β) (ts : UInt64) (delta : Int) : Packet β :=
  if !p.captureEnabled then p
  else
    checkCaptureLimit <|
      if !p.opts.foldEmpty then writeKeepalive p ts
      else if p.captureFoldBuf.length ≠ 0 then foldKeepalive (countGroup p foldLimitLsFs) ts delta
      else foldKeepalive p ts delta

/-- The gate after a change of the trigger input from `input` to
`level`. -/
def gate (trigger : CaptureTrigger) (wasEnabled : Bool) (input level : Int) : Bool :=
  match trigger with
  | .disabled => true
  | .low => level == 0
  | .high => level == 1
  | .falling => wasEnabled || (level == 0 && input == 1)
  | .rising => wasEnabled || (level == 1 && input == 0)

/-- The record of a gate that opened or closed. -/
def noteGate (p : Packet β) (wasEnabled : Bool) : Packet β :=
  if p.captureEnabled && !wasEnabled then captureInfo p p.captureTs .startingCapture
  else if wasEnabled && !p.captureEnabled then captureInfo p p.captureTs .waitingForTrigger
  else p

/-- The gate and the remembered input after a change of the trigger. -/
def setTrigger (p : Packet β) (trigger : Int) : Packet β :=
  { p with
    captureEnabled := gate p.opts.captureTrigger p.captureEnabled p.captureTriggerInput trigger
    captureTriggerInput := trigger }

/-- The trigger part of `status_event`. -/
def statusTrigger (p : Packet β) (trigger : Int) : Packet β :=
  if p.captureTriggerInput = trigger then p
  else
    noteGate (captureInfo (setTrigger p trigger) p.captureTs (.triggerInput trigger))
      p.captureEnabled

/-- The VBUS part of `status_event`. -/
def statusVbus (p : Packet β) (vbus : Int) : Packet β :=
  if p.captureVbus = vbus then p
  else captureInfo { p with captureVbus := vbus } p.captureTs (.vbus (vbus != 0))

/-- The record of a detected speed. -/
def speedMsg (speed : CaptureSpeed) : Msg :=
  if speed = .reset then .busReset else .detectedSpeed speed

/-- The speed part of `status_event`. -/
def statusSpeed (p : Packet β) (speed : CaptureSpeed) : Packet β :=
  if p.captureSpeedIn = some speed then p
  else if p.captureEnabled then
    captureInfo { p with captureSpeedIn := some speed } p.captureTs (speedMsg speed)
  else { p with captureSpeedIn := some speed }

/-- `(int)delta`: the time since the saved line state. -/
def savedDelta (p : Packet β) : Int := castInt (p.captureTs - p.captureSavedTs)

/-- The test for a keep-alive in `status_event`. -/
def isKeepalive (p : Packet β) (ls : Int) : Bool :=
  p.effectiveSpeed == some .ls && p.captureSavedLs == lsSe0 && ls == lsJ3 &&
    (minKeepaliveDuration < p.savedDelta && p.savedDelta < maxKeepaliveDuration)

/-- The new line state, saved until it is over. -/
def saveLine (p : Packet β) (ls : Int) : Packet β :=
  { p with captureSavedLs := ls, captureSavedTs := p.captureTs }

/-- A line state that changed to `ls`: the end of a keep-alive, or a
state to write and a state to save. -/
def lineChange (p : Packet β) (ls : Int) : Packet β :=
  if p.isKeepalive ls then
    keepaliveEvent { p with captureSavedLs := lsInvalid } p.captureSavedTs p.savedDelta
  else saveLine (lineStateEvent p) ls

/-- The line-state part of `status_event`. -/
def statusLs (p : Packet β) (ls : Int) : Packet β :=
  if p.captureLs = ls then p else lineChange { p with captureLs := ls } ls

/-- `status_event`. -/
def statusEvent (p : Packet β) (ls vbus trigger : Int) (speed : CaptureSpeed) : Packet β :=
  statusLs (statusSpeed (statusVbus (statusTrigger p trigger) vbus) speed) ls

variable [ByteLike β]

/-- `allow_sof` of `data_event`. -/
def allowSof (p : Packet β) : Bool := p.effectiveSpeed != some .ls

/-- The limit a SOF is counted against. -/
def sofLimit (p : Packet β) : Nat :=
  if p.effectiveSpeed = some .hs then foldLimitHs else foldLimitLsFs

/-- `data_error` of `data_event`. -/
def frameError (p : Packet β) : Bool := p.captureCrcError || p.captureDataError

/-- `pid` of `data_event`. -/
def framePid (p : Packet β) : UInt8 := ByteLike.val (p.captureData 0)

/-- The payload in `capture_data`. -/
def payload (p : Packet β) : List β := p.dataBytes p.captureSize.toNat

/-- The write-or-fold decision of `data_event`. -/
def dataWrite (p : Packet β) : Packet β :=
  if p.frameError || !p.opts.foldEmpty then writePacket p p.captureTs p.payload
  else if p.captureFoldBuf.length ≠ 0 then
    if p.framePid = pidIn ∨ p.framePid = pidNak then foldPacket p p.captureTs p.payload
    else if p.framePid = pidSof ∧ p.allowSof then
      foldPacket (countGroup p p.sofLimit) p.captureTs p.payload
    else writePacket (stopFolding p) p.captureTs p.payload
  else if p.framePid = pidSof ∧ p.allowSof then foldPacket p p.captureTs p.payload
  else writePacket p p.captureTs p.payload

/-- The flush in front of a frame with an error flag, or of a full
buffer. -/
def dataFlush (p : Packet β) : Packet β :=
  if p.captureOverflow || p.frameError || p.captureFoldBuf.length == foldBufSize then
    stopFolding p
  else p

/-- The overflow record. -/
def noteOverflow (p : Packet β) : Packet β :=
  if p.captureOverflow then captureInfo p p.captureTs .hardwareOverflow else p

/-- The PHY error record. -/
def notePhyError (p : Packet β) : Packet β :=
  if p.captureDataError then captureInfo p p.captureTs .phyError else p

/-- What `data_event` does before it looks at the packet: the pending
line state, the flush, and the two error records. -/
def dataPrepare (p : Packet β) : Packet β :=
  notePhyError (noteOverflow (dataFlush (lineStateEvent p)))

/-- `data_event`. -/
def dataEvent (p : Packet β) : Packet β :=
  if !p.captureEnabled then p else checkCaptureLimit (dataWrite (dataPrepare p))

/-! ## The frame assembler -/

/-- The header dump of `desync_error`, at most `(256 - 4) / 3` bytes. -/
def noteHeader (p : Packet β) : Packet β :=
  captureInfo p p.captureTs
    (.packetHeader ((p.dataBytes (min p.captureSize 84).toNat).map ByteLike.val))

/-- The reset of the frame assembler in `desync_error`. -/
def resetFrame (p : Packet β) : Packet β :=
  { p with captureSize := 0, captureDataPtr := 0, captureHeader := true, captureStatus := false }

/-- `desync_error`. -/
def desyncError (p : Packet β) : Packet β :=
  resetFrame (noteHeader (captureInfo p p.captureTs .desynchronization))

/-- The toggle record of `check_header`. -/
def noteToggle (p : Packet β) (toggle : Nat) : Packet β :=
  if toggle ≠ p.captureToggle then
    captureInfo p p.captureTs (.toggleError toggle p.captureToggle)
  else p

/-- The zero-bit record of `check_header`. -/
def noteZeroBit (p : Packet β) (zeroBit : Nat) : Packet β :=
  if zeroBit ≠ 0 then captureInfo p p.captureTs .zeroBitError else p

/-- `check_header`. -/
def checkHeader (p : Packet β) (toggle zeroBit : Nat) : Packet β :=
  if toggle = p.captureToggle ∧ zeroBit = 0 then p
  else desyncError (noteZeroBit (noteToggle p toggle) zeroBit)

/-- `check_data_size`. -/
def checkDataSize (p : Packet β) (size : Nat) : Packet β :=
  if dataHeaderSize ≤ size ∧ size ≤ maxDataSize then p
  else desyncError (captureInfo p p.captureTs (.dataSizeError size))

/-- Byte `i` of `capture_data`. -/
def byteAt (p : Packet β) (i : Nat) : UInt8 := ByteLike.val (p.captureData i)

/-- `ts`: the 20-bit timestamp field. -/
def headerTs (p : Packet β) : UInt64 :=
  ((p.byteAt 0 &&& 0xf).toUInt64 <<< 16) ||| ((p.byteAt 1).toUInt64 <<< 8) |||
    (p.byteAt 2).toUInt64

/-- A flag of a header byte, as the source's `? 1 : 0`. -/
def flag (b mask : UInt8) : Nat := if b &&& mask ≠ 0 then 1 else 0

/-- `(capture_data[3] >> HEADER_SPEED_OFFS) & HEADER_SPEED_MASK`. -/
def speedField (b : UInt8) : CaptureSpeed :=
  match (b >>> 6).toNat with
  | 0 => .ls
  | 1 => .fs
  | 2 => .hs
  | _ => .reset

/-- `capture_ts_int` with the header's overflow bit counted. -/
def nextTsInt (p : Packet β) : UInt64 :=
  if p.byteAt 0 &&& 0x10 ≠ 0 then p.captureTsInt + 0x100000 else p.captureTsInt

/-- The timestamp, overflow count and toggle of a complete header. -/
def headerClock (p : Packet β) : Packet β :=
  { p with
    captureTsInt := p.nextTsInt
    captureTs := (p.nextTsInt ||| p.headerTs) * 100 / 6
    captureToggle := 1 - flag (p.byteAt 0) 0x40 }

/-- The 2 s update. -/
def headerTimeout (p : Packet β) : Packet β :=
  if castS64 (p.captureTs - p.captureLastTs) > updateInterval then timeoutEvent p else p

/-- The part of `capture_sm` common to both frame types, once a header is
complete: the check, the clock and the 2 s update. -/
def headerCommon (p : Packet β) : Packet β :=
  headerTimeout
    (headerClock (checkHeader p (flag (p.byteAt 0) 0x40) (flag (p.byteAt 0) 0x20)))

/-- The size field of a data header. -/
def headerSize (p : Packet β) : Nat := (p.byteAt 3 &&& 0x7).toNat * 256 + (p.byteAt 4).toNat

/-- A data header of legal size: the payload phase starts, or the next
header for an empty payload. -/
def startPayload (p : Packet β) : Packet β :=
  { p with
    captureSize := (p.headerSize : Int) - dataHeaderSize
    captureOverflow := p.byteAt 3 &&& 0x08 ≠ 0
    captureCrcError := p.byteAt 3 &&& 0x10 ≠ 0
    captureDataError := p.byteAt 3 &&& 0x20 ≠ 0
    captureDuration := (p.byteAt 5).toNat * 256 + (p.byteAt 6).toNat
    captureHeader := (p.headerSize : Int) - dataHeaderSize = 0
    captureDataPtr := 0 }

/-- The data-frame branch of `capture_sm`. -/
def dataHeader (p : Packet β) : Packet β :=
  if p.headerSize < dataHeaderSize ∨ p.headerSize > maxDataSize then checkDataSize p p.headerSize
  else startPayload p

/-- The status event a status header stands for. -/
def statusOf (p : Packet β) : Packet β :=
  p.statusEvent (p.byteAt 3 &&& 0x0f).toNat (flag (p.byteAt 3) 0x10) (flag (p.byteAt 3) 0x20)
    (speedField (p.byteAt 3))

/-- The status-frame branch of `capture_sm`. -/
def statusHeader (p : Packet β) : Packet β := { p.statusOf with captureDataPtr := 0 }

/-- A complete header. -/
def headerDone (p : Packet β) : Packet β :=
  if (headerCommon p).captureStatus then statusHeader (headerCommon p)
  else dataHeader (headerCommon p)

/-- A complete payload. -/
def payloadDone (p : Packet β) : Packet β :=
  { dataEvent { p with captureHeader := true } with captureDataPtr := 0 }

/-- Bit 7 of a header's first byte is clear in a status frame. -/
def startsStatus (byte : β) : Bool := ByteLike.val byte &&& 0x80 == 0

/-- The first byte of a header decides its kind and length. -/
def startFrame (p : Packet β) (byte : β) : Packet β :=
  if p.captureHeader && p.captureDataPtr == 0 then
    { p with
      captureStatus := startsStatus byte
      captureSize := if startsStatus byte then statusHeaderSize else dataHeaderSize }
  else p

/-- `p->capture_data[p->capture_data_ptr++] = byte`. -/
def storeByte (p : Packet β) (byte : β) : Packet β :=
  { p with
    captureData := Function.update p.captureData p.captureDataPtr byte
    captureDataPtr := p.captureDataPtr + 1 }

/-- `capture_sm` once the byte is stored. -/
def frameStep (p : Packet β) : Packet β :=
  if (p.captureDataPtr : Int) < p.captureSize then p
  else if p.captureHeader then headerDone p
  else payloadDone p

/-- `capture_sm`. -/
def captureSm (p : Packet β) (byte : β) : Packet β :=
  frameStep (storeByte (startFrame p byte) byte)

/-! ## The interface -/

/-- `packet_new`: `os_alloc` zeroes the buffers, `packet_start` sets the
rest. -/
def new (opts : PacketOpts) : Packet β where
  opts := opts
  out := []
  done := false
  captureData := fun _ => ByteLike.zero
  captureDataPtr := 0
  captureSize := 0
  captureHeader := true
  captureStatus := false
  captureToggle := 0
  captureLs := -1
  captureVbus := -1
  captureTriggerInput := -1
  captureSpeedIn := none
  captureEnabled := false
  captureTsInt := 0
  captureTs := 0
  captureLastTs := 0
  captureOverflow := false
  captureCrcError := false
  captureDataError := false
  captureDuration := 0
  captureFoldBuf := []
  captureFoldCount := 0
  captureSavedLs := lsInvalid
  captureSavedTs := 0

/-- `packet_announce`. Its `pcapng_flush` writes no record. -/
def announce (p : Packet β) : Packet β :=
  if p.opts.captureTrigger = .disabled then
    { captureInfo { p with done := false } 0 .startingCapture with captureEnabled := true }
  else captureInfo { p with done := false } p.captureTs .waitingForTrigger

/-- The loop of `packet_feed`. -/
def feedBytes : Packet β → List β → Packet β
  | p, [] => p
  | p, b :: bs =>
      if (captureSm p b).done then captureSm p b else feedBytes (captureSm p b) bs

/-- `packet_feed`. -/
def feed (p : Packet β) (data : List β) : Packet β :=
  if p.done then p else feedBytes p data

/-- `packet_rsync`. -/
def rsync (p : Packet β) : Packet β := captureInfo p p.captureTs .linkLoss

/-- `packet_info`. -/
def info (p : Packet β) (msg : String) : Packet β := captureInfo p p.captureTs (.plain msg)

/-- `packet_stop_info`. -/
def stopInfo (p : Packet β) (reason : String) : Packet β :=
  captureInfo p p.captureTs (.stopped reason)

end Packet

/-- A call of the frame layer's interface. -/
inductive PacketCall (β : Type) where
  | announce
  | feed (data : List β)
  | rsync
  | info (msg : String)
  | stopInfo (reason : String)

namespace Packet

variable {β : Type} [ByteLike β]

/-- One call. -/
def call (p : Packet β) : PacketCall β → Packet β
  | .announce => p.announce
  | .feed data => p.feed data
  | .rsync => p.rsync
  | .info msg => p.info msg
  | .stopInfo reason => p.stopInfo reason

/-- A session: the calls in order. -/
def run (p : Packet β) (calls : List (PacketCall β)) : Packet β := calls.foldl call p

end Packet

end UsbSniffer
