import UsbSniffer.Packet.Records

/-!
# The output never goes back in time

Records are not written in the order of the events they describe. A line
state or a keep-alive is written once it is over, with the time it began;
a folded frame waits in the fold buffer and is written with a clamped
time; an error record carries the time of the frame before. What keeps the
output sorted is one relation between five clocks (`Ordered`): the last
written time, the start of the pending line state, the times in the fold
buffer and the time of the current frame. Every event keeps it, as long
as the decoded `capture_ts` does not go back.
-/

namespace UsbSniffer.Packet

variable {β : Type}

/-- The times of the records written so far are sorted, and no time still
waiting to be written can spoil that. -/
structure Ordered (p : Packet β) : Prop where
  sorted : (p.out.map Record.ts).Pairwise (· ≤ ·)
  written : ∀ r ∈ p.out, r.ts ≤ p.captureLastTs
  last : p.captureLastTs ≤ p.captureTs
  saved : p.captureSavedLs ≠ lsInvalid → p.captureLastTs ≤ p.captureSavedTs
  saved_le : p.captureSavedTs ≤ p.captureTs
  folded : ∀ f ∈ p.captureFoldBuf, f.ts ≤ p.captureTs

/-- What `Ordered` reads. -/
def timing (p : Packet β) :
    List (Record β) × UInt64 × UInt64 × Int × UInt64 × List (CaptureFrame β) :=
  (p.out, p.captureLastTs, p.captureTs, p.captureSavedLs, p.captureSavedTs, p.captureFoldBuf)

theorem Ordered.congr {p p' : Packet β} (h : Ordered p) (ht : p'.timing = p.timing) :
    Ordered p' := by
  simp only [timing, Prod.mk.injEq] at ht
  obtain ⟨hout, hlast, hts, hls, hsaved, hbuf⟩ := ht
  constructor
  · rw [hout]
    exact h.sorted
  · rw [hout, hlast]
    exact h.written
  · rw [hlast, hts]
    exact h.last
  · rw [hls, hlast, hsaved]
    exact h.saved
  · rw [hsaved, hts]
    exact h.saved_le
  · rw [hbuf, hts]
    exact h.folded

/-! ## One record -/

/-- One more record, when no line state is pending. -/
theorem Ordered.push {p : Packet β} (h : Ordered p) (hs : p.captureSavedLs = lsInvalid)
    {r : Record β} (hr : p.captureLastTs ≤ r.ts) (hts : r.ts ≤ p.captureTs) :
    Ordered { p with out := p.out ++ [r], captureLastTs := r.ts } where
  sorted := by
    rw [List.map_append, List.pairwise_append]
    refine ⟨h.sorted, List.pairwise_singleton _ _, ?_⟩
    intro a ha b hb
    obtain ⟨r', hr', rfl⟩ := List.mem_map.mp ha
    rw [List.map_singleton, List.mem_singleton] at hb
    subst hb
    exact UInt64.le_trans (h.written r' hr') hr
  written := by
    intro r' hr'
    rcases List.mem_append.mp hr' with hr' | hr'
    · exact UInt64.le_trans (h.written r' hr') hr
    · rw [List.mem_singleton] at hr'
      subst hr'
      exact UInt64.le_refl _
  last := hts
  saved := fun hne => absurd hs hne
  saved_le := h.saved_le
  folded := h.folded

theorem Ordered.forgetSaved {p : Packet β} (h : Ordered p) :
    Ordered { p with captureSavedLs := lsInvalid } where
  sorted := h.sorted
  written := h.written
  last := h.last
  saved := fun hne => absurd rfl hne
  saved_le := h.saved_le
  folded := h.folded

theorem lineStateEvent_savedLs (p : Packet β) : p.lineStateEvent.captureSavedLs = lsInvalid := by
  rw [lineStateEvent_eq]

theorem Ordered.lineStateEvent {p : Packet β} (h : Ordered p) : Ordered p.lineStateEvent := by
  rw [lineStateEvent_eq, pendingRecords, pendingLastTs]
  by_cases hp : p.captureSavedLs = lsInvalid ∨ p.opts.excludeLineState = true
  · rw [if_pos hp, if_pos hp, List.map_nil, List.append_nil]
    exact h.forgetSaved
  · rw [if_neg hp, if_neg hp]
    have hs : p.captureSavedLs ≠ lsInvalid := fun hs => hp (Or.inl hs)
    exact h.forgetSaved.push (r := .info p.captureSavedTs p.lineStateMsg) rfl (h.saved hs)
      h.saved_le

/-- A text record with the time of the current frame: the pending line
state goes first, and is older. -/
theorem Ordered.captureInfo {p : Packet β} (h : Ordered p) (m : Msg) :
    Ordered (captureInfo p p.captureTs m) := by
  have hts := (emitted_lineStateEvent p).ts
  refine h.lineStateEvent.push (r := .info p.captureTs m) (lineStateEvent_savedLs p) ?_ ?_
  · exact hts ▸ h.lineStateEvent.last
  · exact UInt64.le_of_eq hts.symm

theorem lineStateEvent_of_invalid {p : Packet β} (hs : p.captureSavedLs = lsInvalid) :
    p.lineStateEvent = p :=
  lineStateEventDepth_invalid hs 2

/-- A text record with an older time, when no line state is pending. -/
theorem Ordered.captureInfo_at {p : Packet β} (h : Ordered p) (hs : p.captureSavedLs = lsInvalid)
    {ts : UInt64} (hr : p.captureLastTs ≤ ts) (hts : ts ≤ p.captureTs) (m : Msg) :
    Ordered (Packet.captureInfo p ts m) := by
  rw [Packet.captureInfo, lineStateEvent_of_invalid hs]
  exact h.push (r := .info ts m) hs hr hts

theorem captureInfo_savedLs (p : Packet β) (ts : UInt64) (m : Msg) :
    (captureInfo p ts m).captureSavedLs = lsInvalid := by
  rw [captureInfo_eq]

theorem Ordered.timeoutEvent {p : Packet β} (h : Ordered p) : Ordered p.timeoutEvent := by
  rw [Packet.timeoutEvent]
  split
  · exact h.captureInfo _
  · exact h

/-! ## Flushing the fold buffer

A frame in the buffer is older than the current frame, and may be older
than the last record: that is what the clamp is for. -/

/-- `Ordered` with no line state pending: what the flush needs and
keeps. -/
structure OrderedIdle (p : Packet β) : Prop where
  ordered : Ordered p
  idle : p.captureSavedLs = lsInvalid

theorem Ordered.idle_captureInfo {p : Packet β} (h : Ordered p) (m : Msg) :
    OrderedIdle (Packet.captureInfo p p.captureTs m) :=
  ⟨h.captureInfo m, captureInfo_savedLs p _ m⟩

theorem OrderedIdle.writePacket {p : Packet β} (h : OrderedIdle p) {ts : UInt64}
    (hr : p.captureLastTs ≤ ts) (hts : ts ≤ p.captureTs) (data : List β) :
    OrderedIdle (Packet.writePacket p ts data) :=
  ⟨h.ordered.push (r := .epb ts data) h.idle hr hts, h.idle⟩

theorem OrderedIdle.writeKeepalive {p : Packet β} (h : OrderedIdle p) {ts : UInt64}
    (hr : p.captureLastTs ≤ ts) (hts : ts ≤ p.captureTs) :
    OrderedIdle (Packet.writeKeepalive p ts) :=
  ⟨h.ordered.captureInfo_at h.idle hr hts _, captureInfo_savedLs p _ _⟩

theorem OrderedIdle.flushFrame {p : Packet β} (h : OrderedIdle p) {f : CaptureFrame β}
    (hf : f.ts ≤ p.captureTs) : OrderedIdle (Packet.flushFrame p f) := by
  have hclamp : ∀ t : UInt64, t = (if f.ts < p.captureLastTs then p.captureLastTs else f.ts) →
      p.captureLastTs ≤ t ∧ t ≤ p.captureTs := by
    intro t ht
    by_cases hlt : f.ts < p.captureLastTs
    · rw [if_pos hlt] at ht
      subst ht
      exact ⟨UInt64.le_refl _, h.ordered.last⟩
    · rw [if_neg hlt] at ht
      subst ht
      exact ⟨UInt64.not_lt.mp hlt, hf⟩
  obtain ⟨hr, hts⟩ := hclamp _ rfl
  rw [Packet.flushFrame]
  split
  · exact h.writeKeepalive hr hts
  · exact h.writePacket hr hts f.data

theorem OrderedIdle.flush {buf : List (CaptureFrame β)} {p : Packet β} (h : OrderedIdle p)
    (hbuf : ∀ f ∈ buf, f.ts ≤ p.captureTs) : OrderedIdle (buf.foldl Packet.flushFrame p) := by
  induction buf generalizing p with
  | nil => exact h
  | cons f fs ih =>
      refine ih (h.flushFrame (hbuf f List.mem_cons_self)) ?_
      intro g hg
      rw [(emitted_flushFrame p f).ts]
      exact hbuf g (List.mem_cons_of_mem f hg)

theorem OrderedIdle.setFold {p : Packet β} (h : OrderedIdle p) {buf : List (CaptureFrame β)}
    (hbuf : ∀ f ∈ buf, f.ts ≤ p.captureTs) (n : Nat) :
    OrderedIdle { p with captureFoldBuf := buf, captureFoldCount := n } :=
  ⟨{ sorted := h.ordered.sorted
     written := h.ordered.written
     last := h.ordered.last
     saved := h.ordered.saved
     saved_le := h.ordered.saved_le
     folded := hbuf }, h.idle⟩

theorem OrderedIdle.noteFolded {p : Packet β} (h : OrderedIdle p) (count : Nat) :
    OrderedIdle (p.noteFolded count) := by
  rw [Packet.noteFolded]
  split
  · exact h
  · exact h.ordered.idle_captureInfo _

theorem OrderedIdle.stopFolding {p : Packet β} (h : OrderedIdle p) :
    OrderedIdle p.stopFolding := by
  rw [Packet.stopFolding]
  split
  · exact h
  · refine OrderedIdle.noteFolded ?_ _
    exact (h.setFold (by simp) 0).flush h.ordered.folded

theorem OrderedIdle.dropGroup {p : Packet β} (h : OrderedIdle p) : OrderedIdle p.dropGroup :=
  h.setFold (by simp) _

theorem OrderedIdle.countGroup {p : Packet β} (h : OrderedIdle p) (limit : Nat) :
    OrderedIdle (p.countGroup limit) := by
  rw [Packet.countGroup]
  split
  · exact h.dropGroup.stopFolding
  · exact h.dropGroup

/-- One more frame in the fold buffer. -/
theorem OrderedIdle.fold {p : Packet β} (h : OrderedIdle p) {f : CaptureFrame β}
    (hf : f.ts ≤ p.captureTs) :
    OrderedIdle { p with captureFoldBuf := p.captureFoldBuf ++ [f] } := by
  refine h.setFold ?_ p.captureFoldCount
  intro g hg
  rcases List.mem_append.mp hg with hg | hg
  · exact h.ordered.folded g hg
  · rw [List.mem_singleton] at hg
    subst hg
    exact hf

/-! ## The events -/

theorem Ordered.checkCaptureLimit {p : Packet β} (h : Ordered p) : Ordered p.checkCaptureLimit := by
  have hdown : Ordered p.limitDown := h.congr rfl
  rw [Packet.checkCaptureLimit]
  split
  · have hi := hdown.captureInfo .captureLimitReached
    exact hi.congr rfl
  · exact hdown

/-- A keep-alive is written or folded with the time the line state
began. -/
theorem OrderedIdle.keepaliveEvent {p : Packet β} (h : OrderedIdle p) {ts : UInt64}
    (hr : p.captureLastTs ≤ ts) (hts : ts ≤ p.captureTs) (delta : Int) :
    Ordered (p.keepaliveEvent ts delta) := by
  rw [Packet.keepaliveEvent]
  split
  · exact h.ordered
  · refine Ordered.checkCaptureLimit ?_
    split
    · exact (h.writeKeepalive hr hts).ordered
    · split
      · refine ((h.countGroup foldLimitLsFs).fold ?_).ordered
        rw [(emitted_countGroup p foldLimitLsFs).ts]
        exact hts
      · exact (h.fold (f := ⟨ts, -delta, []⟩) hts).ordered

theorem Ordered.noteGate {p : Packet β} (h : Ordered p) (wasEnabled : Bool) :
    Ordered (p.noteGate wasEnabled) := by
  rw [Packet.noteGate]
  split
  · exact h.captureInfo _
  · split
    · exact h.captureInfo _
    · exact h

theorem Ordered.statusTrigger {p : Packet β} (h : Ordered p) (trigger : Int) :
    Ordered (p.statusTrigger trigger) := by
  rw [Packet.statusTrigger]
  split
  · exact h
  · have hset : Ordered (p.setTrigger trigger) := h.congr rfl
    exact (hset.captureInfo (.triggerInput trigger)).noteGate _

theorem Ordered.statusVbus {p : Packet β} (h : Ordered p) (vbus : Int) :
    Ordered (p.statusVbus vbus) := by
  rw [Packet.statusVbus]
  split
  · exact h
  · have hset : Ordered { p with captureVbus := vbus } := h.congr rfl
    exact hset.captureInfo _

theorem Ordered.statusSpeed {p : Packet β} (h : Ordered p) (speed : CaptureSpeed) :
    Ordered (p.statusSpeed speed) := by
  have hset : Ordered { p with captureSpeedIn := some speed } := h.congr rfl
  rw [Packet.statusSpeed]
  split
  · exact h
  · split
    · exact hset.captureInfo _
    · exact hset

theorem isKeepalive_savedLs {p : Packet β} {ls : Int} (h : p.isKeepalive ls = true) :
    p.captureSavedLs = lsSe0 := by
  simp only [isKeepalive, Bool.and_eq_true, beq_iff_eq] at h
  exact h.1.1.2

theorem Ordered.lineChange {p : Packet β} (h : Ordered p) (ls : Int) : Ordered (p.lineChange ls) := by
  rw [Packet.lineChange]
  by_cases hk : p.isKeepalive ls = true
  · rw [if_pos hk]
    -- the saved line state is a real one, so its time is not before the last record
    have hs : p.captureSavedLs ≠ lsInvalid := by
      rw [isKeepalive_savedLs hk]
      decide
    have hidle : OrderedIdle { p with captureSavedLs := lsInvalid } := ⟨h.forgetSaved, rfl⟩
    exact hidle.keepaliveEvent (h.saved hs) h.saved_le _
  · rw [if_neg hk]
    have he := h.lineStateEvent
    have hts := (emitted_lineStateEvent p).ts
    exact
      { sorted := he.sorted
        written := he.written
        last := he.last
        saved := fun _ => he.last
        saved_le := UInt64.le_refl _
        folded := he.folded }

theorem Ordered.statusLs {p : Packet β} (h : Ordered p) (ls : Int) : Ordered (p.statusLs ls) := by
  rw [Packet.statusLs]
  split
  · exact h
  · have hset : Ordered { p with captureLs := ls } := h.congr rfl
    exact hset.lineChange ls

theorem Ordered.statusEvent {p : Packet β} (h : Ordered p) (ls vbus trigger : Int)
    (speed : CaptureSpeed) : Ordered (p.statusEvent ls vbus trigger speed) :=
  (((h.statusTrigger trigger).statusVbus vbus).statusSpeed speed).statusLs ls

theorem Ordered.dataPrepare {p : Packet β} (h : Ordered p) : OrderedIdle p.dataPrepare := by
  have h₁ : OrderedIdle p.lineStateEvent := ⟨h.lineStateEvent, lineStateEvent_savedLs p⟩
  have h₂ : OrderedIdle p.lineStateEvent.dataFlush := by
    rw [dataFlush]
    split
    · exact h₁.stopFolding
    · exact h₁
  have h₃ : OrderedIdle p.lineStateEvent.dataFlush.noteOverflow := by
    rw [noteOverflow]
    split
    · exact h₂.ordered.idle_captureInfo _
    · exact h₂
  rw [Packet.dataPrepare, notePhyError]
  split
  · exact h₃.ordered.idle_captureInfo _
  · exact h₃

theorem Ordered.headerTimeout {p : Packet β} (h : Ordered p) : Ordered p.headerTimeout := by
  rw [Packet.headerTimeout]
  split
  · exact h.timeoutEvent
  · exact h

theorem headerTimeout_ts (p : Packet β) : p.headerTimeout.captureTs = p.captureTs := by
  rw [headerTimeout, timeoutEvent]
  split
  · split
    · exact (emitted_captureInfo p _ _).ts
    · rfl
  · rfl

variable [ByteLike β]

theorem OrderedIdle.dataWrite {p : Packet β} (h : OrderedIdle p) : Ordered p.dataWrite := by
  have hfold : ∀ {q : Packet β}, OrderedIdle q → q.captureTs = p.captureTs →
      Ordered (foldPacket q p.captureTs p.payload) := by
    intro q hq hts
    exact (hq.fold (f := ⟨p.captureTs, p.payload.length, p.payload⟩) (UInt64.le_of_eq hts.symm)).ordered
  have hwrite : Ordered (Packet.writePacket p p.captureTs p.payload) :=
    (h.writePacket h.ordered.last (UInt64.le_refl _) _).ordered
  rw [Packet.dataWrite]
  split
  · exact hwrite
  · split
    · split
      · exact hfold h rfl
      · split
        · exact hfold (h.countGroup _) (emitted_countGroup p _).ts
        · have hts := (emitted_stopFolding p).ts
          have hlast := h.stopFolding.ordered.last
          rw [hts] at hlast
          exact (h.stopFolding.writePacket hlast (UInt64.le_of_eq hts.symm) _).ordered
    · split
      · exact hfold h rfl
      · exact hwrite

theorem Ordered.dataEvent {p : Packet β} (h : Ordered p) : Ordered p.dataEvent := by
  rw [Packet.dataEvent]
  split
  · exact h
  · exact h.dataPrepare.dataWrite.checkCaptureLimit

/-! ## The frame assembler -/

theorem Ordered.desyncError {p : Packet β} (h : Ordered p) : Ordered p.desyncError := by
  have h₁ := (h.captureInfo .desynchronization).captureInfo
    (.packetHeader (((Packet.captureInfo p p.captureTs .desynchronization).dataBytes
      (min (Packet.captureInfo p p.captureTs .desynchronization).captureSize 84).toNat).map
        ByteLike.val))
  exact h₁.congr rfl

theorem Ordered.checkHeader {p : Packet β} (h : Ordered p) (toggle zeroBit : Nat) :
    Ordered (p.checkHeader toggle zeroBit) := by
  have h₁ : Ordered (p.noteToggle toggle) := by
    rw [noteToggle]
    split
    · exact h.captureInfo _
    · exact h
  rw [Packet.checkHeader, noteZeroBit]
  split
  · exact h
  · refine Ordered.desyncError ?_
    split
    · exact h₁.captureInfo _
    · exact h₁

theorem Ordered.checkDataSize {p : Packet β} (h : Ordered p) (size : Nat) :
    Ordered (p.checkDataSize size) := by
  rw [Packet.checkDataSize]
  split
  · exact h
  · exact (h.captureInfo _).desyncError

/-- The clock moves on: nothing waiting becomes newer than it. -/
theorem Ordered.headerClock {p : Packet β} (h : Ordered p)
    (hts : p.captureTs ≤ p.headerClock.captureTs) : Ordered p.headerClock where
  sorted := h.sorted
  written := h.written
  last := UInt64.le_trans h.last hts
  saved := h.saved
  saved_le := UInt64.le_trans h.saved_le hts
  folded := fun f hf => UInt64.le_trans (h.folded f hf) hts

/-- A time after its conversion to ns is far from the sign bit. -/
theorem headerClock_ts_lt (p : Packet β) : p.headerClock.captureTs.toNat < 2 ^ 63 := by
  have hlt := ((p.nextTsInt ||| p.headerTs) * 100).toNat_lt
  show ((p.nextTsInt ||| p.headerTs) * 100 / 6).toNat < 2 ^ 63
  rw [UInt64.toNat_div]
  show ((p.nextTsInt ||| p.headerTs) * 100).toNat / 6 < 2 ^ 63
  omega

theorem checkHeader_ts (p : Packet β) (toggle zeroBit : Nat) :
    (p.checkHeader toggle zeroBit).captureTs = p.captureTs := by
  have h₁ : (p.noteToggle toggle).captureTs = p.captureTs := by
    rw [noteToggle]
    split
    · exact (emitted_captureInfo p _ _).ts
    · rfl
  have h₂ : ((p.noteToggle toggle).noteZeroBit zeroBit).captureTs = p.captureTs := by
    rw [noteZeroBit]
    split
    · exact (emitted_captureInfo _ _ _).ts.trans h₁
    · exact h₁
  rw [checkHeader]
  split
  · rfl
  · rw [desyncError, resetFrame, noteHeader, captureInfo_eq, captureInfo_eq]
    exact h₂

theorem dataHeader_ts (p : Packet β) : p.dataHeader.captureTs = p.captureTs := by
  rw [dataHeader, checkDataSize]
  split
  · split
    · rfl
    · rw [desyncError, resetFrame, noteHeader, captureInfo_eq, captureInfo_eq, captureInfo_eq]
  · rfl

theorem statusHeader_ts (p : Packet β) : p.statusHeader.captureTs = p.captureTs :=
  (signalled_statusEvent p _ _ _ _).ts

theorem headerDone_ts (p : Packet β) :
    p.headerDone.captureTs =
      (p.checkHeader (flag (p.byteAt 0) 0x40) (flag (p.byteAt 0) 0x20)).headerClock.captureTs := by
  have hc := headerTimeout_ts
    (p.checkHeader (flag (p.byteAt 0) 0x40) (flag (p.byteAt 0) 0x20)).headerClock
  rw [headerDone]
  split
  · exact (statusHeader_ts _).trans hc
  · exact (dataHeader_ts _).trans hc

theorem Ordered.headerDone {p : Packet β} (h : Ordered p)
    (hts : p.captureTs ≤ p.headerDone.captureTs) : Ordered p.headerDone := by
  have hc : Ordered p.headerCommon := by
    refine (Ordered.headerClock (h.checkHeader _ _) ?_).headerTimeout
    rw [checkHeader_ts, ← headerDone_ts]
    exact hts
  rw [Packet.headerDone]
  split
  · have hs := hc.statusEvent (p.headerCommon.byteAt 3 &&& 0x0f).toNat
      (flag (p.headerCommon.byteAt 3) 0x10) (flag (p.headerCommon.byteAt 3) 0x20)
      (speedField (p.headerCommon.byteAt 3))
    exact hs.congr rfl
  · rw [dataHeader]
    split
    · exact hc.checkDataSize _
    · exact hc.congr rfl

theorem Ordered.payloadDone {p : Packet β} (h : Ordered p) : Ordered p.payloadDone := by
  have hset : Ordered { p with captureHeader := true } := h.congr rfl
  have hd := hset.dataEvent
  exact hd.congr rfl

/-- **One byte keeps the order**, if it does not turn the clock back. -/
theorem Ordered.captureSm {p : Packet β} (h : Ordered p) {b : β}
    (hts : p.captureTs ≤ (p.captureSm b).captureTs) : Ordered (p.captureSm b) := by
  have hst : Ordered ((p.startFrame b).storeByte b) := by
    rw [startFrame]
    split
    · exact h.congr rfl
    · exact h.congr rfl
  have hst_ts : ((p.startFrame b).storeByte b).captureTs = p.captureTs := by
    rw [startFrame]
    split <;> rfl
  rw [Packet.captureSm, frameStep] at hts ⊢
  split at hts
  · rename_i hlt
    rw [if_pos hlt]
    exact hst
  · rename_i hlt
    rw [if_neg hlt]
    split at hts
    · rename_i hh
      rw [if_pos hh]
      exact hst.headerDone (hst_ts ▸ hts)
    · rename_i hh
      rw [if_neg hh]
      exact hst.payloadDone

/-! ## Runs -/

/-- `capture_ts` after each byte that `packet_feed` processes. -/
def feedTs : Packet β → List β → List UInt64
  | _, [] => []
  | p, b :: bs => if p.done then [] else (p.captureSm b).captureTs :: feedTs (p.captureSm b) bs

/-- `capture_ts` after each byte that a call processes. -/
def callTs (p : Packet β) : PacketCall β → List UInt64
  | .feed data => p.feedTs data
  | _ => []

/-- The decoded `capture_ts` values of a session. -/
def runTs : Packet β → List (PacketCall β) → List UInt64
  | _, [] => []
  | p, c :: cs => p.callTs c ++ runTs (p.call c) cs

theorem feed_ts_mem (p : Packet β) (data : List β) :
    (p.feed data).captureTs ∈ p.captureTs :: p.feedTs data := by
  induction data generalizing p with
  | nil =>
      rw [feed_nil]
      exact List.mem_cons_self
  | cons b bs ih =>
      by_cases hd : p.done = true
      · rw [feed_of_done hd]
        exact List.mem_cons_self
      · have hd' : p.done = false := by simpa using hd
        rw [feed_cons hd', feedTs, if_neg hd]
        exact List.mem_cons_of_mem _ (ih _)

theorem Ordered.feed {p : Packet β} (h : Ordered p) {data : List β}
    (hts : (p.captureTs :: p.feedTs data).Pairwise (· ≤ ·)) : Ordered (p.feed data) := by
  induction data generalizing p with
  | nil => rwa [feed_nil]
  | cons b bs ih =>
      by_cases hd : p.done = true
      · rwa [feed_of_done hd]
      · have hd' : p.done = false := by simpa using hd
        rw [feedTs, if_neg hd, List.pairwise_cons] at hts
        rw [feed_cons hd']
        exact ih (h.captureSm (hts.1 _ List.mem_cons_self)) hts.2

/-- A call other than `packet_announce` keeps the order, if its bytes do
not turn the clock back. -/
theorem Ordered.call {p : Packet β} (h : Ordered p) {c : PacketCall β} (hc : c ≠ .announce)
    (hts : (p.captureTs :: p.callTs c).Pairwise (· ≤ ·)) : Ordered (p.call c) := by
  cases c with
  | announce => exact absurd rfl hc
  | feed data => exact h.feed hts
  | rsync => exact h.captureInfo _
  | info msg => exact h.captureInfo _
  | stopInfo reason => exact h.captureInfo _

theorem call_ts_mem (p : Packet β) {c : PacketCall β} (hc : c ≠ .announce) :
    (p.call c).captureTs ∈ p.captureTs :: p.callTs c := by
  cases c with
  | announce => exact absurd rfl hc
  | feed data => exact feed_ts_mem p data
  | rsync => exact List.mem_cons.mpr (Or.inl (emitted_captureInfo p _ _).ts)
  | info msg => exact List.mem_cons.mpr (Or.inl (emitted_captureInfo p _ _).ts)
  | stopInfo reason => exact List.mem_cons.mpr (Or.inl (emitted_captureInfo p _ _).ts)

theorem Ordered.run {calls : List (PacketCall β)} {p : Packet β} (h : Ordered p)
    (hc : .announce ∉ calls) (hts : (p.captureTs :: p.runTs calls).Pairwise (· ≤ ·)) :
    Ordered (p.run calls) := by
  induction calls generalizing p with
  | nil => exact h
  | cons c cs ih =>
      have hne : c ≠ .announce := fun he => hc (he ▸ List.mem_cons_self)
      rw [runTs, ← List.cons_append, List.pairwise_append] at hts
      obtain ⟨hfirst, hrest, hcross⟩ := hts
      refine ih (h.call hne hfirst) (fun hm => hc (List.mem_cons_of_mem c hm)) ?_
      rw [List.pairwise_cons]
      exact ⟨hcross _ (call_ts_mem p hne), hrest⟩

theorem ordered_announce (opts : PacketOpts) : Ordered (announce (new opts : Packet β)) := by
  have hnew : Ordered (new opts : Packet β) :=
    { sorted := List.Pairwise.nil
      written := fun r hr => absurd hr List.not_mem_nil
      last := UInt64.le_refl _
      saved := fun hne => absurd rfl hne
      saved_le := UInt64.le_refl _
      folded := fun f hf => absurd hf List.not_mem_nil }
  rw [announce]
  split
  · have hi := hnew.captureInfo .startingCapture
    exact hi.congr rfl
  · exact hnew.captureInfo _

theorem announce_ts (opts : PacketOpts) : (announce (new opts : Packet β)).captureTs = 0 := by
  rw [announce, captureInfo_eq, captureInfo_eq]
  split <;> rfl

/-- **Output timestamps never go back**: whatever is fed, and wherever
link losses, messages and the end of the session fall, if the decoded
`capture_ts` values never go back then neither do the records. -/
theorem run_ts_sorted (opts : PacketOpts) (calls : List (PacketCall UInt8))
    (hc : .announce ∉ calls) (hts : ((announce (new opts)).runTs calls).Pairwise (· ≤ ·)) :
    (((announce (new opts)).run calls).out.map Record.ts).Pairwise (· ≤ ·) := by
  refine (Ordered.run (ordered_announce opts) hc ?_).sorted
  rw [announce_ts, List.pairwise_cons]
  exact ⟨fun t _ => UInt64.zero_le, hts⟩

/-- A session with every late record: an SE0 that becomes a keep-alive
and is folded, a packet that flushes it, a line state pending at a link
loss, and the end. -/
def lateSession : List (PacketCall UInt8) :=
  [.feed [0x00, 0, 0, 0x00], .feed [0x40, 0, 90, 0x0c],
    .feed [0x80, 0, 120, 0, 8, 0, 0, 0x2d], .feed [0x40, 0, 150, 0x01], .rsync,
    .feed [0x00, 0, 200], .stopInfo "User request"]

theorem run_ts_sorted_lateSession :
    .announce ∉ lateSession ∧
      ((announce (new foldOpts)).runTs lateSession).Pairwise (· ≤ ·) ∧
      (((announce (new foldOpts)).run lateSession).out.map Record.ts).Pairwise (· ≤ ·) :=
  have hc : .announce ∉ lateSession := by simp [lateSession]
  have hts : ((announce (new foldOpts)).runTs lateSession).Pairwise (· ≤ ·) := by decide +kernel
  ⟨hc, hts, run_ts_sorted foldOpts lateSession hc hts⟩

end UsbSniffer.Packet
