import UsbSniffer.Packet.Model

/-!
# What writing a record changes

Every text record goes through `capture_info`, which first writes the
pending line state. Its whole effect is one update of three fields
(`captureInfo_eq`), and anything made of text records alone is an update
of the same shape (`InfoOnly`): the frame assembler, the bus state, the
gate and the fold buffer are untouched. Later proofs use these two and
never unfold `capture_info` again.
-/

namespace UsbSniffer.Packet

variable {β : Type}

/-! ## `capture_info` in one update -/

/-- The record of the pending line state, if it is to be written. -/
def pendingRecords (p : Packet β) : List (UInt64 × Msg) :=
  if p.captureSavedLs = lsInvalid ∨ p.opts.excludeLineState then []
  else [(p.captureSavedTs, p.lineStateMsg)]

/-- The timestamp of the last record once the pending line state is
written. -/
def pendingLastTs (p : Packet β) : UInt64 :=
  if p.captureSavedLs = lsInvalid ∨ p.opts.excludeLineState then p.captureLastTs
  else p.captureSavedTs

/-- A text record from a timestamp and a message. -/
def infoRecord (r : UInt64 × Msg) : Record β := .info r.1 r.2

theorem lineStateEventDepth_invalid {p : Packet β} (h : p.captureSavedLs = lsInvalid)
    (depth : Nat) : lineStateEventDepth depth p = p := by
  cases depth with
  | zero => rfl
  | succ depth => rw [lineStateEventDepth, if_pos h]

theorem lineStateEventDepth_succ (p : Packet β) (depth : Nat) :
    lineStateEventDepth (depth + 1) p =
      { p with
        out := p.out ++ p.pendingRecords.map infoRecord
        captureLastTs := p.pendingLastTs
        captureSavedLs := lsInvalid } := by
  rw [lineStateEventDepth]
  by_cases hs : p.captureSavedLs = lsInvalid
  · simp only [hs, pendingRecords, pendingLastTs, true_or, if_true, List.map_nil, List.append_nil]
    cases p
    simp_all
  · rw [if_neg hs]
    by_cases hx : p.opts.excludeLineState = true
    · simp [hx, pendingRecords, pendingLastTs]
    · rw [if_neg hx, lineStateEventDepth_invalid rfl]
      simp [hs, hx, pendingRecords, pendingLastTs, writeInfo, infoRecord]

/-- **The recursion through `capture_info` ends**: more depth changes
nothing. -/
theorem lineStateEventDepth_eq (p : Packet β) (depth : Nat) :
    lineStateEventDepth (depth + 2) p = p.lineStateEvent := by
  rw [lineStateEvent, lineStateEventDepth_succ, lineStateEventDepth_succ]

theorem lineStateEvent_eq (p : Packet β) :
    p.lineStateEvent =
      { p with
        out := p.out ++ p.pendingRecords.map infoRecord
        captureLastTs := p.pendingLastTs
        captureSavedLs := lsInvalid } :=
  lineStateEventDepth_succ p 1

/-- **`capture_info`** writes the pending line state and then its own
text. -/
theorem captureInfo_eq (p : Packet β) (ts : UInt64) (m : Msg) :
    captureInfo p ts m =
      { p with
        out := p.out ++ (p.pendingRecords ++ [(ts, m)]).map infoRecord
        captureLastTs := ts
        captureSavedLs := lsInvalid } := by
  rw [captureInfo, lineStateEvent_eq]
  simp [writeInfo, infoRecord]

/-! ## Text records only -/

/-- `p'` is `p` after some text records, all of the kind `P`. -/
def InfoOnly (P : Msg → Prop) (p p' : Packet β) : Prop :=
  ∃ (w : List (UInt64 × Msg)) (t : UInt64) (s : Int),
    p' = { p with out := p.out ++ w.map infoRecord, captureLastTs := t, captureSavedLs := s } ∧
      ∀ r ∈ w, P r.2

theorem InfoOnly.refl {P : Msg → Prop} (p : Packet β) : InfoOnly P p p :=
  ⟨[], p.captureLastTs, p.captureSavedLs, by simp, by simp⟩

theorem InfoOnly.trans {P : Msg → Prop} {p p₁ p₂ : Packet β} (h₁ : InfoOnly P p p₁)
    (h₂ : InfoOnly P p₁ p₂) : InfoOnly P p p₂ := by
  obtain ⟨w₁, t₁, s₁, rfl, hw₁⟩ := h₁
  obtain ⟨w₂, t₂, s₂, rfl, hw₂⟩ := h₂
  refine ⟨w₁ ++ w₂, t₂, s₂, by simp, ?_⟩
  intro r hr
  rcases List.mem_append.mp hr with hr | hr
  · exact hw₁ r hr
  · exact hw₂ r hr

/-- A kind of messages that admits the line states, which any record may
bring along. -/
def LineClosed (P : Msg → Prop) : Prop := ∀ name d, P (.lineState name d)

/-- What is pending is a line state. -/
theorem pendingRecords_kind {P : Msg → Prop} (hP : LineClosed P) (p : Packet β) :
    ∀ r ∈ p.pendingRecords, P r.2 := by
  intro r hr
  rw [pendingRecords] at hr
  split at hr
  · cases hr
  · rw [List.mem_singleton] at hr
    subst hr
    exact hP _ _

theorem InfoOnly.lineStateEvent {P : Msg → Prop} (hP : LineClosed P) (p : Packet β) :
    InfoOnly P p p.lineStateEvent :=
  ⟨p.pendingRecords, p.pendingLastTs, lsInvalid, lineStateEvent_eq p, pendingRecords_kind hP p⟩

/-- Any text brings the pending line state along, so the kind has to
admit that. -/
theorem InfoOnly.captureInfo {P : Msg → Prop} (hP : LineClosed P) {m : Msg} (hm : P m)
    (p : Packet β) (ts : UInt64) : InfoOnly P p (captureInfo p ts m) := by
  refine ⟨p.pendingRecords ++ [(ts, m)], ts, lsInvalid, captureInfo_eq p ts m, ?_⟩
  intro r hr
  rcases List.mem_append.mp hr with hr | hr
  · exact pendingRecords_kind hP p r hr
  · rw [List.mem_singleton] at hr
    subst hr
    exact hm

theorem InfoOnly.timeoutEvent {P : Msg → Prop} (hP : LineClosed P) (hm : P .periodicUpdate)
    (p : Packet β) : InfoOnly P p p.timeoutEvent := by
  rw [Packet.timeoutEvent]
  split
  · exact InfoOnly.captureInfo hP hm p _
  · exact InfoOnly.refl p

theorem InfoOnly.mono {P Q : Msg → Prop} {p p' : Packet β} (h : InfoOnly P p p')
    (hPQ : ∀ m, P m → Q m) : InfoOnly Q p p' := by
  obtain ⟨w, t, s, he, hw⟩ := h
  exact ⟨w, t, s, he, fun r hr => hPQ r.2 (hw r hr)⟩

/-! ## What the events leave alone

The fields fall into groups. `assembler` is what `capture_sm` itself
works on, `bus` the bus state and the gate, `settings` the options apart
from the limit that counts down. Writing, folding and the capture limit
touch none of them; `status_event` touches the bus only. -/

/-- The fields of the frame assembler. -/
structure Assembler (β : Type) where
  data : Nat → β
  dataPtr : Nat
  size : Int
  header : Bool
  status : Bool
  toggle : Nat
  tsInt : UInt64
  ts : UInt64
  overflow : Bool
  crcError : Bool
  dataError : Bool
  duration : Nat

/-- The bus state and the gate. -/
structure Bus where
  ls : Int
  vbus : Int
  triggerInput : Int
  speedIn : Option CaptureSpeed
  enabled : Bool

def assembler (p : Packet β) : Assembler β where
  data := p.captureData
  dataPtr := p.captureDataPtr
  size := p.captureSize
  header := p.captureHeader
  status := p.captureStatus
  toggle := p.captureToggle
  tsInt := p.captureTsInt
  ts := p.captureTs
  overflow := p.captureOverflow
  crcError := p.captureCrcError
  dataError := p.captureDataError
  duration := p.captureDuration

def bus (p : Packet β) : Bus where
  ls := p.captureLs
  vbus := p.captureVbus
  triggerInput := p.captureTriggerInput
  speedIn := p.captureSpeedIn
  enabled := p.captureEnabled

/-- The options a run does not change. -/
def settings (p : Packet β) : PacketOpts := { p.opts with captureLimit := 0 }

/-- `p'` differs from `p` in what was written or folded only: not in the
assembler, the bus or the settings. -/
structure Emitted (p p' : Packet β) : Prop where
  assembler_eq : p'.assembler = p.assembler
  bus_eq : p'.bus = p.bus
  settings_eq : p'.settings = p.settings

theorem Emitted.refl (p : Packet β) : Emitted p p := ⟨rfl, rfl, rfl⟩

theorem Emitted.trans {p p₁ p₂ : Packet β} (h₁ : Emitted p p₁) (h₂ : Emitted p₁ p₂) :
    Emitted p p₂ :=
  ⟨h₂.1.trans h₁.1, h₂.2.trans h₁.2, h₂.3.trans h₁.3⟩

theorem Emitted.ts {p p' : Packet β} (h : Emitted p p') : p'.captureTs = p.captureTs :=
  congrArg Assembler.ts h.assembler_eq

theorem Emitted.enabled {p p' : Packet β} (h : Emitted p p') :
    p'.captureEnabled = p.captureEnabled :=
  congrArg Bus.enabled h.bus_eq

theorem Emitted.foldEmpty {p p' : Packet β} (h : Emitted p p') :
    p'.opts.foldEmpty = p.opts.foldEmpty := by
  have hs := congrArg PacketOpts.foldEmpty h.settings_eq
  exact hs

theorem Emitted.size {p p' : Packet β} (h : Emitted p p') : p'.captureSize = p.captureSize :=
  congrArg Assembler.size h.assembler_eq

theorem Emitted.data {p p' : Packet β} (h : Emitted p p') : p'.captureData = p.captureData :=
  congrArg Assembler.data h.assembler_eq

theorem Emitted.dataBytes {p p' : Packet β} (h : Emitted p p') (n : Nat) :
    p'.dataBytes n = p.dataBytes n := by
  rw [Packet.dataBytes, Packet.dataBytes, h.data]

theorem Emitted.effectiveSpeed {p p' : Packet β} (h : Emitted p p') :
    p'.effectiveSpeed = p.effectiveSpeed := by
  have hin : p'.captureSpeedIn = p.captureSpeedIn := congrArg Bus.speedIn h.bus_eq
  have hopt : p'.opts.captureSpeed = p.opts.captureSpeed := by
    have hs := congrArg PacketOpts.captureSpeed h.settings_eq
    exact hs
  rw [Packet.effectiveSpeed, Packet.effectiveSpeed, hin, hopt]

theorem InfoOnly.emitted {P : Msg → Prop} {p p' : Packet β} (h : InfoOnly P p p') :
    Emitted p p' := by
  obtain ⟨w, t, s, rfl, -⟩ := h
  exact ⟨rfl, rfl, rfl⟩

theorem emitted_lineStateEvent (p : Packet β) : Emitted p p.lineStateEvent := by
  rw [lineStateEvent_eq]
  exact ⟨rfl, rfl, rfl⟩

theorem emitted_captureInfo (p : Packet β) (ts : UInt64) (m : Msg) :
    Emitted p (captureInfo p ts m) := by
  rw [captureInfo_eq]
  exact ⟨rfl, rfl, rfl⟩

theorem emitted_writePacket (p : Packet β) (ts : UInt64) (data : List β) :
    Emitted p (writePacket p ts data) := ⟨rfl, rfl, rfl⟩

theorem emitted_flushFrame (p : Packet β) (f : CaptureFrame β) : Emitted p (flushFrame p f) := by
  rw [flushFrame]
  split
  · exact emitted_captureInfo p _ _
  · exact emitted_writePacket p _ _

/-- The fold buffer is written without a change to anything else. -/
theorem emitted_flush (buf : List (CaptureFrame β)) (p : Packet β) :
    Emitted p (buf.foldl flushFrame p) := by
  induction buf generalizing p with
  | nil => exact Emitted.refl p
  | cons f fs ih => exact (emitted_flushFrame p f).trans (ih _)

theorem emitted_flushBuf (p : Packet β) : Emitted p p.flushBuf := by
  have h := emitted_flush p.captureFoldBuf
    { p with captureFoldCount := 0, captureFoldBuf := [] }
  exact ⟨h.1, h.2, h.3⟩

theorem emitted_noteFolded (p : Packet β) (count : Nat) : Emitted p (p.noteFolded count) := by
  rw [noteFolded]
  split
  · exact Emitted.refl p
  · exact emitted_captureInfo p _ _

theorem emitted_stopFolding (p : Packet β) : Emitted p p.stopFolding := by
  rw [stopFolding]
  split
  · exact Emitted.refl p
  · exact (emitted_flushBuf p).trans (emitted_noteFolded _ _)

theorem emitted_foldPacket (p : Packet β) (ts : UInt64) (data : List β) :
    Emitted p (foldPacket p ts data) := ⟨rfl, rfl, rfl⟩

theorem emitted_foldKeepalive (p : Packet β) (ts : UInt64) (delta : Int) :
    Emitted p (foldKeepalive p ts delta) := ⟨rfl, rfl, rfl⟩

theorem emitted_checkCaptureLimit (p : Packet β) : Emitted p p.checkCaptureLimit := by
  rw [checkCaptureLimit]
  split
  · have h := emitted_captureInfo p.limitDown p.captureTs .captureLimitReached
    exact ⟨h.1, h.2, h.3⟩
  · exact ⟨rfl, rfl, rfl⟩

theorem emitted_countGroup (p : Packet β) (limit : Nat) : Emitted p (p.countGroup limit) := by
  rw [countGroup]
  split
  · have h := emitted_stopFolding p.dropGroup
    exact ⟨h.1, h.2, h.3⟩
  · exact ⟨rfl, rfl, rfl⟩

theorem emitted_keepaliveEvent (p : Packet β) (ts : UInt64) (delta : Int) :
    Emitted p (p.keepaliveEvent ts delta) := by
  rw [keepaliveEvent]
  split
  · exact Emitted.refl p
  · refine Emitted.trans ?_ (emitted_checkCaptureLimit _)
    split
    · exact emitted_captureInfo p _ _
    · split
      · exact (emitted_countGroup p _).trans (emitted_foldKeepalive _ _ _)
      · exact emitted_foldKeepalive p _ _

theorem emitted_noteGate (p : Packet β) (wasEnabled : Bool) :
    Emitted p (p.noteGate wasEnabled) := by
  rw [noteGate]
  split
  · exact emitted_captureInfo p _ _
  · split
    · exact emitted_captureInfo p _ _
    · exact Emitted.refl p

/-- `p'` differs from `p` outside the assembler and the settings. -/
structure Signalled (p p' : Packet β) : Prop where
  assembler_eq : p'.assembler = p.assembler
  settings_eq : p'.settings = p.settings

theorem Signalled.trans {p p₁ p₂ : Packet β} (h₁ : Signalled p p₁) (h₂ : Signalled p₁ p₂) :
    Signalled p p₂ :=
  ⟨h₂.1.trans h₁.1, h₂.2.trans h₁.2⟩

theorem Signalled.ts {p p' : Packet β} (h : Signalled p p') : p'.captureTs = p.captureTs :=
  congrArg Assembler.ts h.assembler_eq

theorem Signalled.foldEmpty {p p' : Packet β} (h : Signalled p p') :
    p'.opts.foldEmpty = p.opts.foldEmpty := by
  have hs := congrArg PacketOpts.foldEmpty h.settings_eq
  exact hs

theorem signalled_statusTrigger (p : Packet β) (trigger : Int) :
    Signalled p (p.statusTrigger trigger) := by
  rw [statusTrigger]
  split
  · exact ⟨rfl, rfl⟩
  · have h := (emitted_captureInfo (p.setTrigger trigger) p.captureTs
      (.triggerInput trigger)).trans (emitted_noteGate _ p.captureEnabled)
    exact ⟨h.1, h.3⟩

theorem signalled_statusVbus (p : Packet β) (vbus : Int) : Signalled p (p.statusVbus vbus) := by
  rw [statusVbus, captureInfo_eq]
  split <;> exact ⟨rfl, rfl⟩

theorem signalled_statusSpeed (p : Packet β) (speed : CaptureSpeed) :
    Signalled p (p.statusSpeed speed) := by
  rw [statusSpeed, captureInfo_eq]
  split
  · exact ⟨rfl, rfl⟩
  · split <;> exact ⟨rfl, rfl⟩

theorem signalled_statusLs (p : Packet β) (ls : Int) : Signalled p (p.statusLs ls) := by
  rw [statusLs]
  split
  · exact ⟨rfl, rfl⟩
  · rw [lineChange, lineStateEvent_eq]
    split
    · have h := emitted_keepaliveEvent
        { p with captureLs := ls, captureSavedLs := lsInvalid } p.captureSavedTs
        (savedDelta { p with captureLs := ls })
      exact ⟨h.1, h.3⟩
    · exact ⟨rfl, rfl⟩

/-- `status_event` leaves the frame assembler alone. -/
theorem signalled_statusEvent (p : Packet β) (ls vbus trigger : Int) (speed : CaptureSpeed) :
    Signalled p (p.statusEvent ls vbus trigger speed) :=
  (((signalled_statusTrigger p trigger).trans (signalled_statusVbus _ vbus)).trans
    (signalled_statusSpeed _ speed)).trans (signalled_statusLs _ ls)

theorem emitted_dataFlush (p : Packet β) : Emitted p p.dataFlush := by
  rw [dataFlush]
  split
  · exact emitted_stopFolding p
  · exact Emitted.refl p

theorem emitted_noteOverflow (p : Packet β) : Emitted p p.noteOverflow := by
  rw [noteOverflow]
  split
  · exact emitted_captureInfo p _ _
  · exact Emitted.refl p

theorem emitted_notePhyError (p : Packet β) : Emitted p p.notePhyError := by
  rw [notePhyError]
  split
  · exact emitted_captureInfo p _ _
  · exact Emitted.refl p

theorem emitted_dataPrepare (p : Packet β) : Emitted p p.dataPrepare :=
  (((emitted_lineStateEvent p).trans (emitted_dataFlush _)).trans
    (emitted_noteOverflow _)).trans (emitted_notePhyError _)

variable [ByteLike β]

theorem emitted_dataWrite (p : Packet β) : Emitted p p.dataWrite := by
  rw [dataWrite]
  split
  · exact emitted_writePacket p _ _
  · split
    · split
      · exact emitted_foldPacket p _ _
      · split
        · exact (emitted_countGroup p _).trans (emitted_foldPacket _ _ _)
        · exact (emitted_stopFolding p).trans (emitted_writePacket _ _ _)
    · split
      · exact emitted_foldPacket p _ _
      · exact emitted_writePacket p _ _

/-- `data_event` writes or folds, and nothing else. -/
theorem emitted_dataEvent (p : Packet β) : Emitted p p.dataEvent := by
  rw [dataEvent]
  split
  · exact Emitted.refl p
  · exact ((emitted_dataPrepare p).trans (emitted_dataWrite _)).trans
      (emitted_checkCaptureLimit _)

/-! ## Desynchronization

Whatever `check_header` and `check_data_size` find, they write texts of
one kind and reset the assembler. -/

/-- The texts about a frame that does not parse. -/
def Complaint : Msg → Prop
  | .lineState _ _ | .desynchronization | .packetHeader _ | .toggleError _ _ | .zeroBitError
  | .dataSizeError _ => True
  | _ => False

theorem complaint_lineClosed : LineClosed Complaint := fun _ _ => trivial

/-- `desync_error` complains and starts a fresh header. -/
theorem desyncError_eq (p : Packet β) :
    ∃ q, InfoOnly Complaint p q ∧ p.desyncError = q.resetFrame := by
  refine ⟨noteHeader (captureInfo p p.captureTs .desynchronization), ?_, rfl⟩
  exact (InfoOnly.captureInfo complaint_lineClosed (m := .desynchronization) trivial p _).trans
    (InfoOnly.captureInfo complaint_lineClosed (m := .packetHeader _) trivial _ _)

theorem InfoOnly.desyncError {p p' : Packet β} (h : InfoOnly Complaint p p') :
    ∃ q, InfoOnly Complaint p q ∧ p'.desyncError = q.resetFrame := by
  obtain ⟨q, hq, he⟩ := desyncError_eq p'
  exact ⟨q, h.trans hq, he⟩

/-- A header with a wrong toggle or zero bit. -/
theorem checkHeader_bad {p : Packet β} {toggle zeroBit : Nat}
    (h : ¬(toggle = p.captureToggle ∧ zeroBit = 0)) :
    ∃ q, InfoOnly Complaint p q ∧ p.checkHeader toggle zeroBit = q.resetFrame := by
  have h₁ : InfoOnly Complaint p (p.noteToggle toggle) := by
    rw [noteToggle]
    split
    · exact InfoOnly.captureInfo complaint_lineClosed (m := .toggleError _ _) trivial p _
    · exact InfoOnly.refl p
  have h₂ : InfoOnly Complaint p ((p.noteToggle toggle).noteZeroBit zeroBit) := by
    rw [noteZeroBit]
    split
    · exact h₁.trans (InfoOnly.captureInfo complaint_lineClosed (m := .zeroBitError) trivial _ _)
    · exact h₁
  rw [checkHeader, if_neg h]
  exact h₂.desyncError

/-- The checks pass, or complain. -/
theorem checkHeader_eq (p : Packet β) (toggle zeroBit : Nat) :
    p.checkHeader toggle zeroBit = p ∨
      ∃ q, InfoOnly Complaint p q ∧ p.checkHeader toggle zeroBit = q.resetFrame := by
  by_cases h : toggle = p.captureToggle ∧ zeroBit = 0
  · exact Or.inl (by rw [checkHeader, if_pos h])
  · exact Or.inr (checkHeader_bad h)

theorem checkDataSize_eq {p : Packet β} {size : Nat}
    (h : size < dataHeaderSize ∨ size > maxDataSize) :
    ∃ q, InfoOnly Complaint p q ∧ p.checkDataSize size = q.resetFrame := by
  rw [checkDataSize, if_neg (by omega)]
  exact (InfoOnly.captureInfo complaint_lineClosed (m := .dataSizeError size) trivial p
    _).desyncError

/-- A complete header, behind what is common to all: a status, a data
header that does not parse, or the start of a payload. -/
theorem headerDone_cases {I : Packet β → Prop} {p : Packet β}
    (hstatus : I p.headerCommon.statusHeader)
    (hreset : ∀ q, InfoOnly Complaint p.headerCommon q → I q.resetFrame)
    (hstart : ¬ (p.headerCommon.headerSize < dataHeaderSize ∨
      p.headerCommon.headerSize > maxDataSize) → I p.headerCommon.startPayload) :
    I p.headerDone := by
  rw [headerDone]
  split
  · exact hstatus
  · rw [dataHeader]
    split
    · rename_i hbad
      obtain ⟨q, hq, he⟩ := checkDataSize_eq (p := p.headerCommon) hbad
      rw [he]
      exact hreset q hq
    · rename_i hgood
      exact hstart hgood

/-- A complete header leaves an empty buffer behind. -/
theorem headerDone_dataPtr (p : Packet β) : p.headerDone.captureDataPtr = 0 :=
  headerDone_cases (I := fun q => q.captureDataPtr = 0) rfl (fun _ _ => rfl) (fun _ => rfl)

/-! ## Feeding -/

/-- A capture that is done takes no bytes. -/
theorem feed_of_done {p : Packet β} (h : p.done = true) (data : List β) : p.feed data = p := by
  rw [feed, if_pos h]

theorem feed_nil (p : Packet β) : p.feed [] = p := by
  rw [feed]
  split <;> rfl

theorem feed_cons {p : Packet β} (h : p.done = false) (b : β) (bs : List β) :
    p.feed (b :: bs) = (p.captureSm b).feed bs := by
  rw [feed, if_neg (by simp [h]), feedBytes, feed]

/-- `packet_feed` does not see how its input is split. -/
theorem feed_append (p : Packet β) (xs ys : List β) :
    p.feed (xs ++ ys) = (p.feed xs).feed ys := by
  induction xs generalizing p with
  | nil => rw [List.nil_append, feed_nil]
  | cons b bs ih =>
      by_cases hd : p.done = true
      · rw [feed_of_done hd, feed_of_done hd, feed_of_done hd]
      · have hd' : p.done = false := by simpa using hd
        rw [List.cons_append, feed_cons hd', feed_cons hd', ih]

theorem feed_flatten (p : Packet β) (chunks : List (List β)) :
    chunks.foldl feed p = p.feed chunks.flatten := by
  induction chunks generalizing p with
  | nil => rw [List.foldl_nil, List.flatten_nil, feed_nil]
  | cons c cs ih => rw [List.foldl_cons, ih, List.flatten_cons, feed_append]

/-- A property of packets that every byte keeps, as long as the capture
is not done, is kept by `packet_feed`. -/
theorem feed_induction {I : Packet β → Prop} {data : List β}
    (hstep : ∀ p, ∀ b ∈ data, p.done = false → I p → I (p.captureSm b)) {p : Packet β} (h : I p) :
    I (p.feed data) := by
  induction data generalizing p with
  | nil => rwa [feed_nil]
  | cons b bs ih =>
      by_cases hd : p.done = true
      · rwa [feed_of_done hd]
      · have hd' : p.done = false := by simpa using hd
        rw [feed_cons hd']
        exact ih (fun q x hx => hstep q x (List.mem_cons_of_mem b hx))
          (hstep p b List.mem_cons_self hd' h)

end UsbSniffer.Packet
