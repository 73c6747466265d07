import UsbSniffer.Packet.Assembly
import UsbSniffer.Packet.Folding
import UsbSniffer.Packet.Steps
import UsbSniffer.Packet.Written

/-!
# What stays inside its buffer

`capture_sm` is given anything. `desync_error` empties the assembler in
the middle of it, the size of the next payload comes from bytes nothing
has checked, and the fold buffer has no guard where an entry is stored,
only an equality test in `data_event`. All the same every session stays
in bounds (`run_inBounds`), and the sizes that reach the pcapng writer
are those of a payload.
-/

namespace UsbSniffer

variable {β : Type}

/-! ## The bounds -/

/-- The size of a payload: `MAX_DATA_SIZE - DATA_HEADER_SIZE` at most. -/
def PayloadSize (n : Int) : Prop := 1 ≤ n ∧ n ≤ 1273

/-- An entry of the fold buffer: a keep-alive with a negative size, or a
packet with the size of its bytes. -/
def CaptureFrame.Legal (f : CaptureFrame β) : Prop :=
  f.size < 0 ∨ (f.size = f.data.length ∧ PayloadSize f.data.length)

namespace Packet

/-- The frame assembler. -/
structure Framed (p : Packet β) : Prop where
  header : p.captureHeader = true → p.captureDataPtr = 0 ∨
    (p.captureDataPtr < p.captureSize ∧
      (p.captureSize = statusHeaderSize ∨ p.captureSize = dataHeaderSize))
  payload : p.captureHeader = false →
    PayloadSize p.captureSize ∧ p.captureDataPtr < p.captureSize

/-- The assembler, the fold buffer and the packets written. -/
structure InBounds (p : Packet β) : Prop extends Framed p where
  foldPtr : p.captureFoldBuf.length ≤ foldBufSize
  entries : ∀ f ∈ p.captureFoldBuf, f.Legal
  written : ∀ ts data, .epb ts data ∈ p.out → PayloadSize data.length

/-! ## Where entries are stored

The places of `fold_packet` and `fold_keepalive`, following the functions
that call them. -/

/-- `capture_fold_buf_ptr`: where the next entry goes. -/
def foldIndex (p : Packet β) : Nat := p.captureFoldBuf.length

/-- The entry of `keepalive_event`. -/
def keepaliveAppends (p : Packet β) : List Nat :=
  if !p.captureEnabled then []
  else if !p.opts.foldEmpty then []
  else if p.captureFoldBuf.length ≠ 0 then [(countGroup p foldLimitLsFs).foldIndex]
  else [p.foldIndex]

def lineChangeAppends (p : Packet β) (ls : Int) : List Nat :=
  if p.isKeepalive ls then keepaliveAppends { p with captureSavedLs := lsInvalid } else []

def statusLsAppends (p : Packet β) (ls : Int) : List Nat :=
  if p.captureLs = ls then [] else lineChangeAppends { p with captureLs := ls } ls

/-- The entry of `status_event`. -/
def statusAppends (p : Packet β) (ls vbus trigger : Int) (speed : CaptureSpeed) : List Nat :=
  statusLsAppends (statusSpeed (statusVbus (statusTrigger p trigger) vbus) speed) ls

variable [ByteLike β]

/-- The entry of the write-or-fold decision. -/
def dataWriteAppends (p : Packet β) : List Nat :=
  if p.frameError || !p.opts.foldEmpty then []
  else if p.captureFoldBuf.length ≠ 0 then
    if p.framePid = pidIn ∨ p.framePid = pidNak then [p.foldIndex]
    else if p.framePid = pidSof ∧ p.allowSof then [(countGroup p p.sofLimit).foldIndex]
    else []
  else if p.framePid = pidSof ∧ p.allowSof then [p.foldIndex]
  else []

/-- The entry of `data_event`. -/
def dataAppends (p : Packet β) : List Nat :=
  if !p.captureEnabled then [] else dataWriteAppends p.dataPrepare

def headerDoneAppends (p : Packet β) : List Nat :=
  if (headerCommon p).captureStatus then
    (headerCommon p).statusAppends ((headerCommon p).byteAt 3 &&& 0x0f).toNat
      (flag ((headerCommon p).byteAt 3) 0x10) (flag ((headerCommon p).byteAt 3) 0x20)
      (speedField ((headerCommon p).byteAt 3))
  else []

/-- **The places at which one byte stores an entry.** -/
def captureSmAppends (p : Packet β) (byte : β) : List Nat :=
  if ((p.pushed byte).captureDataPtr : Int) < (p.pushed byte).captureSize then []
  else if (p.pushed byte).captureHeader then headerDoneAppends (p.pushed byte)
  else dataAppends { p.pushed byte with captureHeader := true }

end Packet

/-! ## The fold buffer

What `fold_packet` and `fold_keepalive` need is room for one entry, and
what they leave is a buffer of sized entries. -/

/-- The size says what an entry is. -/
def CaptureFrame.Sized (f : CaptureFrame β) : Prop := f.size < 0 ∨ f.size = f.data.length

namespace Packet

/-- The entries fit and are sized. -/
structure Fits (buf : List (CaptureFrame β)) : Prop where
  length_le : buf.length ≤ foldBufSize
  sized : ∀ f ∈ buf, f.Sized

theorem foldBufSize_pos : 0 < foldBufSize := by decide

theorem fits_nil : Fits ([] : List (CaptureFrame β)) :=
  ⟨Nat.zero_le _, fun _ hf => (List.not_mem_nil hf).elim⟩

theorem Fits.concat {buf : List (CaptureFrame β)} (h : Fits buf) (hlt : buf.length < foldBufSize)
    {f : CaptureFrame β} (hf : f.Sized) : Fits (buf ++ [f]) := by
  refine ⟨?_, fun g hg => ?_⟩
  · rw [List.length_append, List.length_singleton]
    omega
  · rcases List.mem_append.mp hg with hg | hg
    · exact h.sized g hg
    · rw [List.mem_singleton.mp hg]
      exact hf

theorem InfoOnly.foldBuf {P : Msg → Prop} {p p' : Packet β} (h : InfoOnly P p p') :
    p'.captureFoldBuf = p.captureFoldBuf := by
  obtain ⟨w, t, s, rfl, -⟩ := h
  rfl

@[simp] theorem captureInfo_foldBuf (p : Packet β) (ts : UInt64) (m : Msg) :
    (captureInfo p ts m).captureFoldBuf = p.captureFoldBuf := by
  rw [captureInfo_eq]

@[simp] theorem lineStateEvent_foldBuf (p : Packet β) :
    p.lineStateEvent.captureFoldBuf = p.captureFoldBuf := by
  rw [lineStateEvent_eq]

@[simp] theorem checkCaptureLimit_foldBuf (p : Packet β) :
    p.checkCaptureLimit.captureFoldBuf = p.captureFoldBuf := by
  rw [checkCaptureLimit]
  split
  · exact captureInfo_foldBuf p.limitDown p.captureTs .captureLimitReached
  · rfl

@[simp] theorem stopFolding_foldBuf (p : Packet β) : p.stopFolding.captureFoldBuf = [] := by
  have hbuf := congrArg Ledger.buffer (ledger_stopFolding p)
  exact List.map_eq_nil_iff.mp hbuf

@[simp] theorem countGroup_foldBuf (p : Packet β) (limit : Nat) :
    (p.countGroup limit).captureFoldBuf = [] := by
  rw [countGroup]
  split
  · exact stopFolding_foldBuf _
  · rfl

@[simp] theorem statusTrigger_foldBuf (p : Packet β) (trigger : Int) :
    (p.statusTrigger trigger).captureFoldBuf = p.captureFoldBuf := by
  have hset : (p.setTrigger trigger).captureFoldBuf = p.captureFoldBuf := rfl
  rw [statusTrigger, noteGate]
  split
  · rfl
  · split
    · rw [captureInfo_foldBuf, captureInfo_foldBuf, hset]
    · split
      · rw [captureInfo_foldBuf, captureInfo_foldBuf, hset]
      · rw [captureInfo_foldBuf, hset]

@[simp] theorem statusVbus_foldBuf (p : Packet β) (vbus : Int) :
    (p.statusVbus vbus).captureFoldBuf = p.captureFoldBuf := by
  rw [statusVbus]
  split
  · rfl
  · rw [captureInfo_foldBuf]

@[simp] theorem statusSpeed_foldBuf (p : Packet β) (speed : CaptureSpeed) :
    (p.statusSpeed speed).captureFoldBuf = p.captureFoldBuf := by
  rw [statusSpeed]
  split
  · rfl
  · split
    · rw [captureInfo_foldBuf]
    · rfl

/-- A keep-alive is stored at the front of an empty buffer: a group in
front of it is given up first. -/
theorem keepaliveAppends_lt (p : Packet β) : ∀ i ∈ p.keepaliveAppends, i < foldBufSize := by
  intro i hi
  rw [keepaliveAppends] at hi
  split at hi
  · cases hi
  · split at hi
    · cases hi
    · split at hi
      · rw [List.mem_singleton.mp hi, foldIndex, countGroup_foldBuf]
        exact foldBufSize_pos
      · rename_i hempty
        rw [List.mem_singleton.mp hi, foldIndex, not_not.mp hempty]
        exact foldBufSize_pos

theorem keepalive_sized (ts : UInt64) {delta : Int} (hd : 0 < delta) :
    (⟨ts, -delta, []⟩ : CaptureFrame β).Sized := Or.inl (Int.neg_neg_of_pos hd)

theorem Fits.keepaliveEvent {p : Packet β} (h : Fits p.captureFoldBuf) (ts : UInt64) {delta : Int}
    (hd : 0 < delta) : Fits (p.keepaliveEvent ts delta).captureFoldBuf := by
  have hone : Fits ([] ++ [(⟨ts, -delta, []⟩ : CaptureFrame β)]) :=
    fits_nil.concat foldBufSize_pos (keepalive_sized ts hd)
  rw [Packet.keepaliveEvent]
  split
  · exact h
  · rw [checkCaptureLimit_foldBuf]
    split
    · rw [writeKeepalive, captureInfo_foldBuf]
      exact h
    · split
      · rw [foldKeepalive, countGroup_foldBuf]
        exact hone
      · rename_i hempty
        have hnil := List.eq_nil_of_length_eq_zero (not_not.mp hempty)
        rw [foldKeepalive, hnil]
        exact hone

theorem Fits.statusLs {p : Packet β} (h : Fits p.captureFoldBuf) (ls : Int) :
    Fits (p.statusLs ls).captureFoldBuf := by
  rw [Packet.statusLs, lineChange]
  split
  · exact h
  · split
    · rename_i hk
      have hset : Fits
          { p with captureLs := ls, captureSavedLs := lsInvalid }.captureFoldBuf := h
      exact hset.keepaliveEvent _ (savedDelta_pos hk)
    · rw [saveLine, lineStateEvent_foldBuf]
      exact h

theorem Fits.statusEvent {p : Packet β} (h : Fits p.captureFoldBuf) (ls vbus trigger : Int)
    (speed : CaptureSpeed) : Fits (p.statusEvent ls vbus trigger speed).captureFoldBuf := by
  refine Fits.statusLs ?_ ls
  rw [statusSpeed_foldBuf, statusVbus_foldBuf, statusTrigger_foldBuf]
  exact h

theorem statusAppends_lt (p : Packet β) (ls vbus trigger : Int) (speed : CaptureSpeed) :
    ∀ i ∈ p.statusAppends ls vbus trigger speed, i < foldBufSize := by
  intro i hi
  rw [statusAppends, statusLsAppends] at hi
  split at hi
  · cases hi
  · rw [lineChangeAppends] at hi
    split at hi
    · exact keepaliveAppends_lt _ i hi
    · cases hi

@[simp] theorem noteOverflow_foldBuf (p : Packet β) :
    p.noteOverflow.captureFoldBuf = p.captureFoldBuf := by
  rw [noteOverflow]
  split
  · exact captureInfo_foldBuf p _ _
  · rfl

@[simp] theorem notePhyError_foldBuf (p : Packet β) :
    p.notePhyError.captureFoldBuf = p.captureFoldBuf := by
  rw [notePhyError]
  split
  · exact captureInfo_foldBuf p _ _
  · rfl

/-- In front of a packet a full buffer is flushed, so there is room for
one entry. -/
theorem Fits.dataPrepare {p : Packet β} (h : Fits p.captureFoldBuf) :
    Fits p.dataPrepare.captureFoldBuf ∧ p.dataPrepare.captureFoldBuf.length < foldBufSize := by
  rw [Packet.dataPrepare, notePhyError_foldBuf, noteOverflow_foldBuf, dataFlush]
  split
  · rw [stopFolding_foldBuf]
    exact ⟨fits_nil, foldBufSize_pos⟩
  · rename_i hroom
    simp only [Bool.or_eq_true, beq_iff_eq, not_or] at hroom
    have hle := h.length_le
    rw [lineStateEvent_foldBuf] at hroom ⊢
    exact ⟨h, Nat.lt_of_le_of_ne hle hroom.2⟩

theorem payload_sized (p : Packet β) :
    (⟨p.captureTs, p.payload.length, p.payload⟩ : CaptureFrame β).Sized := Or.inr rfl

section Bytes

variable [ByteLike β]

theorem Fits.dataWrite {p : Packet β} (h : Fits p.captureFoldBuf)
    (hlt : p.captureFoldBuf.length < foldBufSize) : Fits p.dataWrite.captureFoldBuf := by
  have hone := h.concat hlt p.payload_sized
  have hnew := fits_nil.concat foldBufSize_pos p.payload_sized
  rw [Packet.dataWrite]
  split
  · exact h
  · split
    · split
      · exact hone
      · split
        · rw [foldPacket, countGroup_foldBuf]
          exact hnew
        · rw [writePacket, stopFolding_foldBuf]
          exact fits_nil
    · split
      · exact hone
      · exact h

theorem Fits.dataEvent {p : Packet β} (h : Fits p.captureFoldBuf) :
    Fits p.dataEvent.captureFoldBuf := by
  obtain ⟨hprep, hlt⟩ := h.dataPrepare
  rw [Packet.dataEvent]
  split
  · exact h
  · rw [checkCaptureLimit_foldBuf]
    exact hprep.dataWrite hlt

theorem Fits.dataAppends_lt {p : Packet β} (h : Fits p.captureFoldBuf) :
    ∀ i ∈ p.dataAppends, i < foldBufSize := by
  obtain ⟨-, hlt⟩ := h.dataPrepare
  intro i hi
  rw [dataAppends, dataWriteAppends] at hi
  split at hi
  · cases hi
  · split at hi
    · cases hi
    · split at hi
      · split at hi
        · rw [List.mem_singleton.mp hi]
          exact hlt
        · split at hi
          · rw [List.mem_singleton.mp hi, foldIndex, countGroup_foldBuf]
            exact foldBufSize_pos
          · cases hi
      · split at hi
        · rw [List.mem_singleton.mp hi]
          exact hlt
        · cases hi

/-- A header check stores nothing. -/
theorem headerCommon_foldBuf (p : Packet β) :
    p.headerCommon.captureFoldBuf = p.captureFoldBuf := by
  have hcheck : ∀ t z, (p.checkHeader t z).captureFoldBuf = p.captureFoldBuf := by
    intro t z
    rcases checkHeader_eq p t z with he | ⟨q, hq, he⟩
    · rw [he]
    · rw [he]
      exact hq.foldBuf
  have hclock : (p.checkHeader (flag (p.byteAt 0) 0x40)
      (flag (p.byteAt 0) 0x20)).headerClock.captureFoldBuf = p.captureFoldBuf := hcheck _ _
  rw [headerCommon, headerTimeout, timeoutEvent]
  split
  · split
    · rw [captureInfo_foldBuf, hclock]
    · exact hclock
  · exact hclock

theorem Fits.headerDone {p : Packet β} (h : Fits p.captureFoldBuf) :
    Fits p.headerDone.captureFoldBuf := by
  have hcommon : Fits p.headerCommon.captureFoldBuf := by
    rw [headerCommon_foldBuf]
    exact h
  refine headerDone_cases (I := fun q => Fits q.captureFoldBuf) ?_ (fun q hq => ?_) (fun _ => ?_)
  · exact hcommon.statusEvent _ _ _ _
  · have hbuf : q.resetFrame.captureFoldBuf = p.headerCommon.captureFoldBuf := hq.foldBuf
    rw [hbuf]
    exact hcommon
  · exact hcommon

theorem pushed_foldBuf (p : Packet β) (b : β) :
    (p.pushed b).captureFoldBuf = p.captureFoldBuf := by
  rw [pushed, startFrame]
  split <;> rfl

/-- **Every entry is stored inside the fold buffer.** -/
theorem Fits.captureSmAppends_lt {p : Packet β} (h : Fits p.captureFoldBuf) (b : β) :
    ∀ i ∈ p.captureSmAppends b, i < foldBufSize := by
  have hpush : Fits (p.pushed b).captureFoldBuf := by
    rw [pushed_foldBuf]
    exact h
  intro i hi
  rw [captureSmAppends] at hi
  split at hi
  · cases hi
  · split at hi
    · rw [headerDoneAppends] at hi
      split at hi
      · exact statusAppends_lt _ _ _ _ _ i hi
      · cases hi
    · exact Fits.dataAppends_lt (p := { p.pushed b with captureHeader := true }) hpush i hi

theorem Fits.captureSm {p : Packet β} (h : Fits p.captureFoldBuf) (b : β) :
    Fits (p.captureSm b).captureFoldBuf := by
  have hpush : Fits (p.pushed b).captureFoldBuf := by
    rw [pushed_foldBuf]
    exact h
  exact captureSm_cases (I := fun q => Fits q.captureFoldBuf) (fun _ => hpush)
    (fun _ => hpush.headerDone)
    (fun _ => Fits.dataEvent (p := { p.pushed b with captureHeader := true }) hpush)

end Bytes

end Packet

/-! ## The sizes of packets

The ledger says what is written and what will be. -/

/-- A packet that was a payload. -/
def Captured.Legal : Captured β → Prop
  | .packet data => PayloadSize data.length
  | .keepalive => True

/-- Every packet written or held was a payload. -/
structure Ledger.Legal (l : Ledger β) : Prop where
  written : ∀ c ∈ l.written, c.Legal
  buffer : ∀ c ∈ l.buffer, c.Legal

namespace Ledger.Legal

variable {l : Ledger β}

theorem write (h : l.Legal) {c : Captured β} (hc : c.Legal) : (l.write c).Legal := by
  refine ⟨fun d hd => ?_, h.buffer⟩
  rcases List.mem_append.mp hd with hd | hd
  · exact h.written d hd
  · rw [List.mem_singleton.mp hd]
    exact hc

theorem hold (h : l.Legal) {c : Captured β} (hc : c.Legal) : (l.hold c).Legal := by
  refine ⟨h.written, fun d hd => ?_⟩
  rcases List.mem_append.mp hd with hd | hd
  · exact h.buffer d hd
  · rw [List.mem_singleton.mp hd]
    exact hc

theorem drop (h : l.Legal) : l.drop.Legal := ⟨h.written, fun _ hd => (List.not_mem_nil hd).elim⟩

theorem flush (h : l.Legal) : l.flush.Legal := by
  refine ⟨fun d hd => ?_, fun _ hd => (List.not_mem_nil hd).elim⟩
  rcases List.mem_append.mp hd with hd | hd
  · exact h.written d hd
  · exact h.buffer d hd

end Ledger.Legal

theorem CaptureFrame.Legal.captured {f : CaptureFrame β} (h : f.Legal) : f.captured.Legal := by
  rw [CaptureFrame.captured]
  split
  · trivial
  · rename_i hneg
    exact (h.resolve_left hneg).2

theorem CaptureFrame.Sized.legal {f : CaptureFrame β} (hs : f.Sized) (hc : f.captured.Legal) :
    f.Legal := by
  rcases hs with hneg | hlen
  · exact Or.inl hneg
  · rw [CaptureFrame.captured, if_neg (by omega)] at hc
    exact Or.inr ⟨hlen, hc⟩

namespace Packet

variable {p : Packet β}

theorem legal_countGroup (h : p.ledger.Legal) (limit : Nat) :
    (p.countGroup limit).ledger.Legal := by
  have hdrop : p.dropGroup.ledger.Legal := h.drop
  rw [countGroup]
  split
  · rw [ledger_stopFolding]
    exact hdrop.flush
  · exact hdrop

theorem legal_keepaliveEvent (h : p.ledger.Legal) (ts : UInt64) {delta : Int} (hd : 0 < delta) :
    (p.keepaliveEvent ts delta).ledger.Legal := by
  rw [keepaliveEvent]
  split
  · exact h
  · rw [ledger_checkCaptureLimit]
    split
    · rw [ledger_writeKeepalive]
      exact h.write trivial
    · split
      · rw [ledger_foldKeepalive _ _ hd]
        exact (legal_countGroup h _).hold trivial
      · rw [ledger_foldKeepalive _ _ hd]
        exact h.hold trivial

theorem legal_statusLs (h : p.ledger.Legal) (ls : Int) : (p.statusLs ls).ledger.Legal := by
  rw [statusLs, lineChange]
  split
  · exact h
  · split
    · rename_i hk
      have hset : Packet.ledger { p with captureLs := ls, captureSavedLs := lsInvalid } =
          p.ledger := rfl
      exact legal_keepaliveEvent (hset ▸ h) _ (savedDelta_pos hk)
    · have hline := ledger_lineStateEvent { p with captureLs := ls }
      exact hline ▸ h

theorem legal_statusEvent (h : p.ledger.Legal) (ls vbus trigger : Int) (speed : CaptureSpeed) :
    (p.statusEvent ls vbus trigger speed).ledger.Legal := by
  refine legal_statusLs ?_ ls
  rw [ledger_statusSpeed, ledger_statusVbus, ledger_statusTrigger]
  exact h

theorem legal_dataPrepare (h : p.ledger.Legal) : p.dataPrepare.ledger.Legal := by
  rw [ledger_dataPrepare]
  split
  · exact h.flush
  · exact h

theorem payload_length (h : PayloadSize p.captureSize) :
    (p.payload.length : Int) = p.captureSize := by
  have hpos := h.1
  rw [payload, dataBytes, List.length_map, List.length_range, Int.toNat_of_nonneg (by omega)]

variable [ByteLike β]

theorem legal_dataWrite (h : p.ledger.Legal) (hpay : PayloadSize p.payload.length) :
    p.dataWrite.ledger.Legal := by
  rw [dataWrite]
  split
  · rw [ledger_writePacket]
    exact h.write hpay
  · split
    · split
      · rw [ledger_foldPacket]
        exact h.hold hpay
      · split
        · rw [ledger_foldPacket]
          exact (legal_countGroup h _).hold hpay
        · rw [ledger_writePacket, ledger_stopFolding]
          exact h.flush.write hpay
    · split
      · rw [ledger_foldPacket]
        exact h.hold hpay
      · rw [ledger_writePacket]
        exact h.write hpay

/-- `data_event` is given a payload. -/
theorem legal_dataEvent (h : p.ledger.Legal) (hsize : PayloadSize p.captureSize) :
    p.dataEvent.ledger.Legal := by
  rw [dataEvent]
  split
  · exact h
  · rw [ledger_checkCaptureLimit]
    refine legal_dataWrite (legal_dataPrepare h) ?_
    have hsame := (emitted_dataPrepare p).size
    rw [payload_length (by rw [hsame]; exact hsize), hsame]
    exact hsize

theorem legal_headerDone (h : p.ledger.Legal) (hh : p.captureHeader = true) :
    p.headerDone.ledger.Legal := by
  obtain ⟨hledger, -, -⟩ := headerCommon_same p hh
  have hcommon : p.headerCommon.ledger.Legal := hledger ▸ h
  refine headerDone_cases (I := fun q => q.ledger.Legal) ?_ (fun q hq => ?_) (fun _ => hcommon)
  · exact legal_statusEvent hcommon _ _ _ _
  · have hreset : q.resetFrame.ledger = p.headerCommon.ledger :=
      (hq.mono aside_of_complaint).ledger
    rw [hreset]
    exact hcommon

/-! ## The frame assembler -/

/-- A complete header starts a payload of legal size, or is followed by
the next header. -/
theorem framed_headerDone (hh : p.captureHeader = true) : Framed p.headerDone := by
  obtain ⟨-, -, hcommon⟩ := headerCommon_same p hh
  refine headerDone_cases (I := Framed) ?_ (fun q _ => ?_) (fun hgood => ?_)
  · -- a status frame leaves the header phase as it is
    have hsig := (signalled_statusEvent p.headerCommon
      (p.headerCommon.byteAt 3 &&& 0x0f).toNat (flag (p.headerCommon.byteAt 3) 0x10)
      (flag (p.headerCommon.byteAt 3) 0x20) (speedField (p.headerCommon.byteAt 3))).assembler_eq
    have hsame : p.headerCommon.statusHeader.captureHeader = p.headerCommon.captureHeader :=
      congrArg Assembler.header hsig
    refine ⟨fun _ => Or.inl rfl, fun hfalse => ?_⟩
    rw [hsame, hcommon] at hfalse
    cases hfalse
  · exact ⟨fun _ => Or.inl rfl, fun hfalse => by cases hfalse⟩
  · refine ⟨fun _ => Or.inl rfl, fun hfalse => ?_⟩
    have hne : ¬ (p.headerCommon.headerSize : Int) - dataHeaderSize = 0 := of_decide_eq_false hfalse
    -- without the test the rest would be negative
    have hmin : dataHeaderSize ≤ p.headerCommon.headerSize :=
      Nat.not_lt.mp fun hlt => hgood (Or.inl hlt)
    have hmax : p.headerCommon.headerSize ≤ 1280 := Nat.not_lt.mp fun hgt => hgood (Or.inr hgt)
    have hseven : dataHeaderSize = 7 := rfl
    show PayloadSize ((p.headerCommon.headerSize : Int) - dataHeaderSize) ∧
      ((0 : Nat) : Int) < (p.headerCommon.headerSize : Int) - dataHeaderSize
    rw [PayloadSize]
    omega

theorem pushed_ledger (p : Packet β) (b : β) : (p.pushed b).ledger = p.ledger := by
  rw [pushed, startFrame]
  split <;> rfl

/-- A byte that does not start a header is stored behind the others. -/
theorem pushed_inside (hphase : p.captureHeader = true → p.captureDataPtr ≠ 0) (b : β) :
    p.pushed b = p.storeByte b := by
  rw [pushed, startFrame_inside hphase]

/-- **One byte keeps the assembler in bounds.** -/
theorem Framed.captureSm (h : Framed p) (b : β) : Framed (p.captureSm b) := by
  by_cases hfirst : p.captureHeader = true ∧ p.captureDataPtr = 0
  · -- the first byte of a header is never the last
    rw [captureSm_first hfirst.1 hfirst.2]
    have h1 := one_lt_headerLength b
    refine ⟨fun _ => Or.inr ⟨?_, ?_⟩, fun hfalse => ?_⟩
    · show ((1 : Nat) : Int) < headerLength b
      omega
    · show (headerLength b : Int) = statusHeaderSize ∨ (headerLength b : Int) = dataHeaderSize
      rw [headerLength_cast]
      split
      · exact Or.inl rfl
      · exact Or.inr rfl
    · rw [hfirst.1] at hfalse
      cases hfalse
  · have hphase : p.captureHeader = true → p.captureDataPtr ≠ 0 := fun hh h0 => hfirst ⟨hh, h0⟩
    refine captureSm_cases (fun hlt => ?_) (fun he => framed_headerDone (endsHeader_header he))
      (fun _ => ?_)
    · rw [pushed_inside hphase] at hlt ⊢
      refine ⟨fun hh => Or.inr ⟨hlt, ?_⟩, fun hh => ⟨(h.payload hh).1, hlt⟩⟩
      exact ((h.header hh).resolve_left (hphase hh)).2
    · have hheader : (p.pushed b).payloadDone.captureHeader = true :=
        congrArg Assembler.header
          (emitted_dataEvent { p.pushed b with captureHeader := true }).assembler_eq
      refine ⟨fun _ => Or.inl rfl, fun hfalse => ?_⟩
      rw [hheader] at hfalse
      cases hfalse

/-- What `data_event` is given is a payload. -/
theorem Framed.pushed_size (h : Framed p) {b : β} (hh : (p.pushed b).captureHeader = false) :
    PayloadSize (p.pushed b).captureSize := by
  have hsame : (p.pushed b).captureHeader = p.captureHeader := by
    rw [pushed, startFrame]
    split <;> rfl
  rw [hsame] at hh
  rw [pushed_inside (fun htrue => by rw [hh] at htrue; cases htrue)]
  exact (h.payload hh).1

theorem legal_captureSm (h : p.ledger.Legal) (hf : Framed p) (b : β) :
    (p.captureSm b).ledger.Legal := by
  have hpush : (p.pushed b).ledger.Legal := by
    rw [pushed_ledger]
    exact h
  refine captureSm_cases (I := fun q => q.ledger.Legal) (fun _ => hpush) (fun he => ?_)
    (fun hh => ?_)
  · exact legal_headerDone hpush (endsHeader_header he)
  · exact legal_dataEvent (p := { p.pushed b with captureHeader := true }) hpush
      (hf.pushed_size hh)

/-! ## Every run -/

omit [ByteLike β] in
/-- The bounds are those of the assembler, the fold buffer and the
ledger. -/
theorem inBounds_iff : InBounds p ↔ Framed p ∧ Fits p.captureFoldBuf ∧ p.ledger.Legal := by
  constructor
  · intro h
    refine ⟨h.toFramed, ⟨h.foldPtr, fun f hf => (h.entries f hf).imp_right And.left⟩,
      ⟨fun c hc => ?_, fun c hc => ?_⟩⟩
    · obtain ⟨r, hr, hcap⟩ := List.mem_filterMap.mp hc
      cases r with
      | epb ts data =>
          cases hcap
          exact h.written ts data hr
      | info ts m =>
          cases m <;> cases hcap
          trivial
    · obtain ⟨f, hf, rfl⟩ := List.mem_map.mp hc
      exact (h.entries f hf).captured
  · rintro ⟨hframed, hfits, hlegal⟩
    refine ⟨hframed, hfits.length_le, fun f hf => ?_, fun ts data hr => ?_⟩
    · exact (hfits.sized f hf).legal (hlegal.buffer _ (List.mem_map.mpr ⟨f, hf, rfl⟩))
    · exact hlegal.written (.packet data) (List.mem_filterMap.mpr ⟨_, hr, rfl⟩)

/-- **One byte keeps the bounds.** -/
theorem InBounds.captureSm (h : InBounds p) (b : β) : InBounds (p.captureSm b) := by
  obtain ⟨hframed, hfits, hlegal⟩ := inBounds_iff.mp h
  exact inBounds_iff.mpr
    ⟨hframed.captureSm b, hfits.captureSm b, legal_captureSm hlegal hframed b⟩

omit [ByteLike β] in
/-- So does a text record, with the pending line state in front of it. -/
theorem InBounds.captureInfo (h : InBounds p) (ts : UInt64) (m : Msg) :
    InBounds (captureInfo p ts m) := by
  rw [captureInfo_eq]
  refine ⟨⟨h.header, h.payload⟩, h.foldPtr, h.entries, fun ts' data hr => ?_⟩
  rcases List.mem_append.mp hr with hr | hr
  · exact h.written ts' data hr
  · obtain ⟨x, -, hx⟩ := List.mem_map.mp hr
    cases hx

theorem InBounds.call (h : InBounds p) (c : PacketCall β) (hfeed : ∀ data, c ≠ .feed data) :
    InBounds (p.call c) := by
  cases c with
  | feed data => exact absurd rfl (hfeed data)
  | announce =>
      have hset : InBounds { p with done := false } :=
        ⟨⟨h.header, h.payload⟩, h.foldPtr, h.entries, h.written⟩
      rw [Packet.call, Packet.announce]
      split
      · have hinfo := hset.captureInfo 0 .startingCapture
        exact ⟨⟨hinfo.header, hinfo.payload⟩, hinfo.foldPtr, hinfo.entries, hinfo.written⟩
      · exact hset.captureInfo _ _
  | rsync => exact h.captureInfo _ _
  | info msg => exact h.captureInfo _ _
  | stopInfo reason => exact h.captureInfo _ _

theorem inBounds_new (opts : PacketOpts) : InBounds (new opts : Packet β) :=
  ⟨⟨fun _ => Or.inl rfl, fun hfalse => by cases hfalse⟩, Nat.zero_le _,
    fun _ hf => (List.not_mem_nil hf).elim, fun _ _ hr => (List.not_mem_nil hr).elim⟩

/-! ## The recursion of `capture_info` -/

mutual

/-- `capture_info`, cut off after a number of nested calls. -/
def captureInfoDepth : Nat → Packet β → UInt64 → Msg → Option (Packet β)
  | 0, _, _, _ => none
  | depth + 1, p, ts, m => (lineStateDepth depth p).map fun q => writeInfo q ts m

/-- `line_state_event`, cut off likewise. -/
def lineStateDepth : Nat → Packet β → Option (Packet β)
  | 0, _ => none
  | depth + 1, p =>
      if p.captureSavedLs = lsInvalid then some p
      else
        let p₁ := { p with captureSavedLs := lsInvalid }
        if p.opts.excludeLineState then some p₁
        else captureInfoDepth depth p₁ p.captureSavedTs p.lineStateMsg

end

omit [ByteLike β] in
/-- The saved line state is forgotten before the nested call, which finds
none. -/
theorem lineStateDepth_eq (depth : Nat) (p : Packet β) :
    lineStateDepth (depth + 3) p = some p.lineStateEvent := by
  rw [lineStateDepth, lineStateEvent, lineStateEventDepth]
  by_cases hs : p.captureSavedLs = lsInvalid
  · rw [if_pos hs, if_pos hs]
  · rw [if_neg hs, if_neg hs]
    dsimp only
    by_cases hx : p.opts.excludeLineState = true
    · rw [if_pos hx, if_pos hx]
    · rw [if_neg hx, if_neg hx, captureInfoDepth, lineStateDepth, if_pos rfl,
        lineStateEventDepth_invalid rfl]
      rfl

omit [ByteLike β] in
theorem captureInfoDepth_eq (depth : Nat) (p : Packet β) (ts : UInt64) (m : Msg) :
    captureInfoDepth (depth + 4) p ts m = some (captureInfo p ts m) := by
  rw [captureInfoDepth, lineStateDepth_eq]
  rfl

/-- **Every session stays in bounds**, whatever bytes it is fed and
whatever is called in between: the state each byte meets and the state it
leaves, every place at which it stores an entry of the fold buffer, and
the state after the session. The recursion of `capture_info` through
`line_state_event` ends. -/
theorem run_inBounds (opts : PacketOpts) (calls : List (PacketCall β)) :
    (∀ s ∈ (new opts : Packet β).runSteps calls,
        InBounds s.1 ∧ InBounds (s.1.captureSm s.2) ∧
          ∀ i ∈ s.1.captureSmAppends s.2, i < foldBufSize) ∧
      InBounds ((new opts : Packet β).run calls) ∧
        ∀ (p : Packet β) (ts : UInt64) (m : Msg) (depth : Nat),
          captureInfoDepth (depth + 4) p ts m = some (captureInfo p ts m) := by
  obtain ⟨hsteps, hend⟩ := run_steps_induction (I := InBounds) (Q := fun _ => True)
    (C := fun _ => True) (fun _ b _ _ h => h.captureSm b) (fun _ c _ hne h => h.call c hne)
    (inBounds_new opts) (fun c (_ : c ∈ calls) => trivial) fun _ _ => trivial
  refine ⟨fun s hs => ?_, hend, fun p ts m depth => captureInfoDepth_eq depth p ts m⟩
  have hin := (hsteps s hs).2
  exact ⟨hin, hin.captureSm s.2, (inBounds_iff.mp hin).2.1.captureSmAppends_lt s.2⟩

end Packet

end UsbSniffer
