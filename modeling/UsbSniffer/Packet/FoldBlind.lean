import UsbSniffer.Packet.Records

/-!
# Folding is output only

Two packets that run on the same calls, one with `fold_empty` and one
without, part ways in what they write and when: the timestamp of the last
record, hence the periodic update, hence the pending line state and the
keep-alives. Everything else is out of reach of folding. `shown` is that
rest, and the proof is an unwinding: every function of the frame layer
either does not touch what is shown (`Hidden`), or changes it by what is
shown alone (`Agree`).

The capture limit is the one way out, since it stops the run; here it is
not positive, so the counter never comes to zero.
-/

namespace UsbSniffer

/-- The texts that depend on what was written before: the line states,
the keep-alives, the fold summaries and the periodic update. -/
def Msg.foldDependent : Msg → Bool
  | .keepAlive | .periodicUpdate | .lineState _ _ | .folded _ => true
  | _ => false

/-- A record folding has no say in. -/
def Record.firm {β : Type} : Record β → Bool
  | .epb _ _ => false
  | .info _ m => !m.foldDependent

namespace Packet

variable {β : Type}

/-! ## What is shown -/

/-- What two runs have in common that differ in `fold_empty`. -/
structure Shown (β : Type) where
  assembler : Assembler β
  bus : Bus
  settings : PacketOpts
  records : List (Record β)

def shown (p : Packet β) : Shown β where
  assembler := p.assembler
  bus := p.bus
  settings := { p.settings with foldEmpty := false }
  records := p.out.filter Record.firm

/-- The limit has not been reached and never will be. -/
structure Unlimited (p : Packet β) : Prop where
  limit : p.opts.captureLimit ≤ 0
  running : p.done = false

/-- What `Unlimited` reads. -/
def quota (p : Packet β) : Int × Bool := (p.opts.captureLimit, p.done)

theorem Unlimited.congr {p p' : Packet β} (hu : p.Unlimited) (h : p'.quota = p.quota) :
    p'.Unlimited := by
  obtain ⟨hlimit, hdone⟩ := Prod.mk.inj h
  exact ⟨hlimit ▸ hu.limit, hdone ▸ hu.running⟩

/-- `p'` is `p` after something that does not show. -/
structure Hidden (p p' : Packet β) : Prop where
  shown_eq : p'.shown = p.shown
  unlimited : p.Unlimited → p'.Unlimited

theorem Hidden.of_eq {p p' : Packet β} (hs : p'.shown = p.shown) (hq : p'.quota = p.quota) :
    Hidden p p' :=
  ⟨hs, fun hu => hu.congr hq⟩

theorem Hidden.refl (p : Packet β) : Hidden p p := ⟨rfl, fun h => h⟩

theorem Hidden.trans {p p₁ p₂ : Packet β} (h₁ : Hidden p p₁) (h₂ : Hidden p₁ p₂) :
    Hidden p p₂ :=
  ⟨h₂.shown_eq.trans h₁.shown_eq, fun h => h₂.unlimited (h₁.unlimited h)⟩

theorem filter_firm_eq_nil {w : List (UInt64 × Msg)} (hw : ∀ r ∈ w, r.2.foldDependent = true) :
    (w.map (infoRecord (β := β))).filter Record.firm = [] := by
  rw [List.filter_eq_nil_iff]
  intro x hx
  obtain ⟨r, hr, rfl⟩ := List.mem_map.mp hx
  rw [infoRecord, Record.firm, hw r hr]
  decide

/-- Text that depends on folding does not show. -/
theorem InfoOnly.hidden {p p' : Packet β}
    (h : InfoOnly (fun m => m.foldDependent = true) p p') : Hidden p p' := by
  obtain ⟨w, t, s, rfl, hw⟩ := h
  refine Hidden.of_eq ?_ rfl
  have hout : (p.out ++ w.map infoRecord).filter Record.firm = p.out.filter Record.firm := by
    rw [List.filter_append, filter_firm_eq_nil hw, List.append_nil]
  exact congrArg (fun r => { p.shown with records := r }) hout

theorem foldDependent_lineClosed : LineClosed (fun m => m.foldDependent = true) :=
  fun _ _ => rfl

/-- A text about folding brings along nothing that shows. -/
theorem hidden_captureInfo {m : Msg} (hm : m.foldDependent = true) (p : Packet β)
    (ts : UInt64) : Hidden p (captureInfo p ts m) :=
  (InfoOnly.captureInfo foldDependent_lineClosed hm p ts).hidden

theorem hidden_lineStateEvent (p : Packet β) : Hidden p p.lineStateEvent :=
  (InfoOnly.lineStateEvent foldDependent_lineClosed p).hidden

theorem hidden_timeoutEvent (p : Packet β) : Hidden p p.timeoutEvent :=
  (InfoOnly.timeoutEvent foldDependent_lineClosed rfl p).hidden

theorem hidden_writePacket (p : Packet β) (ts : UInt64) (data : List β) :
    Hidden p (writePacket p ts data) := by
  refine Hidden.of_eq ?_ rfl
  have hout : (p.out ++ [Record.epb ts data]).filter Record.firm = p.out.filter Record.firm := by
    rw [List.filter_append]
    exact List.append_nil _
  exact congrArg (fun r => { p.shown with records := r }) hout

/-- The fold buffer and the fold count do not show. -/
theorem hidden_fold (p : Packet β) (buf : List (CaptureFrame β)) (count : Nat) :
    Hidden p { p with captureFoldBuf := buf, captureFoldCount := count } :=
  Hidden.of_eq rfl rfl

theorem hidden_flushFrame (p : Packet β) (f : CaptureFrame β) : Hidden p (flushFrame p f) := by
  rw [flushFrame]
  split
  · exact hidden_captureInfo rfl p _
  · exact hidden_writePacket p _ _

theorem hidden_flush (buf : List (CaptureFrame β)) (p : Packet β) :
    Hidden p (buf.foldl flushFrame p) := by
  induction buf generalizing p with
  | nil => exact Hidden.refl p
  | cons f fs ih => exact (hidden_flushFrame p f).trans (ih _)

/-- Packets do not show, so it does not matter when they leave the fold
buffer. -/
theorem hidden_stopFolding (p : Packet β) : Hidden p p.stopFolding := by
  rw [stopFolding]
  split
  · exact Hidden.refl p
  · have hflush : Hidden p p.flushBuf := (hidden_fold p [] 0).trans (hidden_flush _ _)
    rw [noteFolded]
    split
    · exact hflush
    · exact hflush.trans (hidden_captureInfo rfl _ _)

theorem hidden_countGroup (p : Packet β) (limit : Nat) : Hidden p (p.countGroup limit) := by
  have hdrop : Hidden p p.dropGroup := hidden_fold p [] (p.captureFoldCount + 1)
  rw [countGroup]
  split
  · exact hdrop.trans (hidden_stopFolding _)
  · exact hdrop

theorem hidden_foldPacket (p : Packet β) (ts : UInt64) (data : List β) :
    Hidden p (foldPacket p ts data) :=
  hidden_fold p (foldPacket p ts data).captureFoldBuf p.captureFoldCount

theorem hidden_foldKeepalive (p : Packet β) (ts : UInt64) (delta : Int) :
    Hidden p (foldKeepalive p ts delta) :=
  hidden_fold p (foldKeepalive p ts delta).captureFoldBuf p.captureFoldCount

/-- Below zero the limit counts on and is never met. -/
theorem hidden_checkCaptureLimit {p : Packet β} (hu : p.Unlimited) :
    Hidden p p.checkCaptureLimit := by
  have hl : p.limitDown.opts.captureLimit < 0 := by
    have h := hu.limit
    show p.opts.captureLimit - 1 < 0
    omega
  rw [checkCaptureLimit, if_neg (Int.ne_of_lt hl)]
  exact ⟨rfl, fun _ => ⟨Int.le_of_lt hl, hu.running⟩⟩

theorem hidden_keepaliveEvent {p : Packet β} (hu : p.Unlimited) (ts : UInt64) (delta : Int) :
    Hidden p (p.keepaliveEvent ts delta) := by
  rw [keepaliveEvent]
  split
  · exact Hidden.refl p
  · have hrecord : Hidden p (if !p.opts.foldEmpty then writeKeepalive p ts
        else if p.captureFoldBuf.length ≠ 0 then
          foldKeepalive (countGroup p foldLimitLsFs) ts delta
        else foldKeepalive p ts delta) := by
      split
      · exact hidden_captureInfo rfl p ts
      · split
        · exact (hidden_countGroup p _).trans (hidden_foldKeepalive _ _ _)
        · exact hidden_foldKeepalive p _ _
    exact hrecord.trans (hidden_checkCaptureLimit (hrecord.unlimited hu))

/-! ## Agreement -/

/-- The two runs agree on what is shown, and neither is limited. -/
structure Agree (p q : Packet β) : Prop where
  shown_eq : p.shown = q.shown
  left : p.Unlimited
  right : q.Unlimited

theorem Agree.hidden {p q p' q' : Packet β} (h : Agree p q) (hp : Hidden p p')
    (hq : Hidden q q') : Agree p' q' where
  shown_eq := by rw [hp.shown_eq, hq.shown_eq, h.shown_eq]
  left := hp.unlimited h.left
  right := hq.unlimited h.right

/-- Both runs change what is shown in the same way. -/
theorem Agree.update {p q p' q' : Packet β} (h : Agree p q) {f : Shown β → Shown β}
    (hp : p'.shown = f p.shown) (hq : q'.shown = f q.shown)
    (hlp : p'.quota = p.quota) (hlq : q'.quota = q.quota) : Agree p' q' where
  shown_eq := by rw [hp, hq, h.shown_eq]
  left := h.left.congr hlp
  right := h.right.congr hlq

theorem Agree.assembler_eq {p q : Packet β} (h : Agree p q) : p.assembler = q.assembler :=
  congrArg Shown.assembler h.shown_eq

theorem Agree.bus_eq {p q : Packet β} (h : Agree p q) : p.bus = q.bus :=
  congrArg Shown.bus h.shown_eq

theorem Agree.ts {p q : Packet β} (h : Agree p q) : p.captureTs = q.captureTs :=
  congrArg Assembler.ts h.assembler_eq

theorem Agree.size {p q : Packet β} (h : Agree p q) : p.captureSize = q.captureSize :=
  congrArg Assembler.size h.assembler_eq

theorem Agree.data {p q : Packet β} (h : Agree p q) : p.captureData = q.captureData :=
  congrArg Assembler.data h.assembler_eq

theorem Agree.dataPtr {p q : Packet β} (h : Agree p q) : p.captureDataPtr = q.captureDataPtr :=
  congrArg Assembler.dataPtr h.assembler_eq

theorem Agree.header {p q : Packet β} (h : Agree p q) : p.captureHeader = q.captureHeader :=
  congrArg Assembler.header h.assembler_eq

theorem Agree.enabled {p q : Packet β} (h : Agree p q) : p.captureEnabled = q.captureEnabled :=
  congrArg Bus.enabled h.bus_eq

theorem Agree.trigger {p q : Packet β} (h : Agree p q) :
    p.opts.captureTrigger = q.opts.captureTrigger := by
  have ht := congrArg (fun s => s.settings.captureTrigger) h.shown_eq
  exact ht

/-- What a text record adds to what is shown. -/
def Shown.note (s : Shown β) (ts : UInt64) (m : Msg) : Shown β :=
  { s with records := s.records ++ [.info ts m].filter Record.firm }

theorem shown_captureInfo (p : Packet β) (ts : UInt64) (m : Msg) :
    (captureInfo p ts m).shown = p.shown.note ts m := by
  have hline : ∀ r ∈ p.pendingRecords, r.2.foldDependent = true :=
    pendingRecords_kind foldDependent_lineClosed p
  rw [captureInfo_eq]
  have hout : (p.out ++ (p.pendingRecords ++ [(ts, m)]).map infoRecord).filter Record.firm =
      p.out.filter Record.firm ++ [.info ts m].filter Record.firm := by
    rw [List.filter_append, List.map_append, List.filter_append, filter_firm_eq_nil hline,
      List.nil_append]
    rfl
  exact congrArg (fun r => { p.shown with records := r }) hout

theorem quota_captureInfo (p : Packet β) (ts : UInt64) (m : Msg) :
    (captureInfo p ts m).quota = p.quota := by
  rw [captureInfo_eq]
  rfl

/-- Both runs write the same text. -/
theorem Agree.captureInfo {p q : Packet β} (h : Agree p q) {ts ts' : UInt64} (hts : ts = ts')
    {m m' : Msg} (hm : m = m') : Agree (captureInfo p ts m) (captureInfo q ts' m') := by
  subst hts hm
  exact h.update (f := fun s => s.note ts m) (shown_captureInfo p ts m) (shown_captureInfo q ts m)
    (quota_captureInfo p ts m) (quota_captureInfo q ts m)

/-- Both runs change the frame assembler in the same way. -/
theorem Agree.assemble {p q p' q' : Packet β} (h : Agree p q) {f : Assembler β → Assembler β}
    (hp : p'.shown = { p.shown with assembler := f p.assembler })
    (hq : q'.shown = { q.shown with assembler := f q.assembler })
    (hlp : p'.quota = p.quota) (hlq : q'.quota = q.quota) : Agree p' q' :=
  h.update (f := fun s => { s with assembler := f s.assembler }) hp hq hlp hlq

/-- The end of a frame. -/
theorem Agree.rewind {p q : Packet β} (h : Agree p q) :
    Agree { p with captureDataPtr := 0 } { q with captureDataPtr := 0 } :=
  h.assemble (f := fun a => { a with dataPtr := 0 }) rfl rfl rfl rfl

theorem Agree.storeByte {p q : Packet β} (h : Agree p q) (b : β) :
    Agree (p.storeByte b) (q.storeByte b) :=
  h.assemble
    (f := fun a => { a with
      data := Function.update a.data a.dataPtr b
      dataPtr := a.dataPtr + 1 }) rfl rfl rfl rfl

/-! ## The status event -/

theorem Agree.noteGate {p q : Packet β} (h : Agree p q) {was was' : Bool} (hw : was = was') :
    Agree (p.noteGate was) (q.noteGate was') := by
  subst hw
  rw [Packet.noteGate, Packet.noteGate, ← h.enabled]
  split
  · exact h.captureInfo h.ts rfl
  · split
    · exact h.captureInfo h.ts rfl
    · exact h

theorem Agree.setTrigger {p q : Packet β} (h : Agree p q) (trigger : Int) :
    Agree (p.setTrigger trigger) (q.setTrigger trigger) :=
  h.update
    (f := fun s => { s with
      bus := { s.bus with
        enabled := gate s.settings.captureTrigger s.bus.enabled s.bus.triggerInput trigger
        triggerInput := trigger } })
    rfl rfl rfl rfl

theorem Agree.statusTrigger {p q : Packet β} (h : Agree p q) (trigger : Int) :
    Agree (p.statusTrigger trigger) (q.statusTrigger trigger) := by
  have hin : p.captureTriggerInput = q.captureTriggerInput := congrArg Bus.triggerInput h.bus_eq
  rw [Packet.statusTrigger, Packet.statusTrigger, ← hin]
  split
  · exact h
  · exact ((h.setTrigger trigger).captureInfo h.ts rfl).noteGate h.enabled

theorem Agree.statusVbus {p q : Packet β} (h : Agree p q) (vbus : Int) :
    Agree (p.statusVbus vbus) (q.statusVbus vbus) := by
  have hin : p.captureVbus = q.captureVbus := congrArg Bus.vbus h.bus_eq
  have hset : Agree { p with captureVbus := vbus } { q with captureVbus := vbus } :=
    h.update (f := fun s => { s with bus := { s.bus with vbus := vbus } }) rfl rfl rfl rfl
  rw [Packet.statusVbus, Packet.statusVbus, ← hin]
  split
  · exact h
  · exact hset.captureInfo h.ts rfl

theorem Agree.statusSpeed {p q : Packet β} (h : Agree p q) (speed : CaptureSpeed) :
    Agree (p.statusSpeed speed) (q.statusSpeed speed) := by
  have hin : p.captureSpeedIn = q.captureSpeedIn := congrArg Bus.speedIn h.bus_eq
  have hset : Agree { p with captureSpeedIn := some speed }
      { q with captureSpeedIn := some speed } :=
    h.update (f := fun s => { s with bus := { s.bus with speedIn := some speed } }) rfl rfl rfl rfl
  rw [Packet.statusSpeed, Packet.statusSpeed, ← hin]
  split
  · exact h
  · by_cases he : p.captureEnabled = true
    · rw [if_pos he, if_pos (h.enabled ▸ he)]
      exact hset.captureInfo h.ts rfl
    · rw [if_neg he, if_neg (h.enabled ▸ he)]
      exact hset

/-- Whether a change of the line state ends a keep-alive depends on the
saved line state, and so on folding; what comes of it does not show. -/
theorem hidden_lineChange {p : Packet β} (hu : p.Unlimited) (ls : Int) :
    Hidden p (p.lineChange ls) := by
  rw [lineChange]
  split
  · have hset : Hidden p { p with captureSavedLs := lsInvalid } :=
      Hidden.of_eq rfl rfl
    exact hset.trans (hidden_keepaliveEvent (hset.unlimited hu) _ _)
  · refine (hidden_lineStateEvent p).trans ?_
    exact Hidden.of_eq rfl rfl

theorem Agree.statusLs {p q : Packet β} (h : Agree p q) (ls : Int) :
    Agree (p.statusLs ls) (q.statusLs ls) := by
  have hin : p.captureLs = q.captureLs := congrArg Bus.ls h.bus_eq
  have hset : Agree { p with captureLs := ls } { q with captureLs := ls } :=
    h.update (f := fun s => { s with bus := { s.bus with ls := ls } }) rfl rfl rfl rfl
  rw [Packet.statusLs, Packet.statusLs, ← hin]
  split
  · exact h
  · exact hset.hidden (hidden_lineChange hset.left ls) (hidden_lineChange hset.right ls)

theorem Agree.statusEvent {p q : Packet β} (h : Agree p q) (ls vbus trigger : Int)
    (speed : CaptureSpeed) :
    Agree (p.statusEvent ls vbus trigger speed) (q.statusEvent ls vbus trigger speed) :=
  (((h.statusTrigger trigger).statusVbus vbus).statusSpeed speed).statusLs ls

/-! ## The data event -/

theorem Agree.noteOverflow {p q : Packet β} (h : Agree p q) :
    Agree p.noteOverflow q.noteOverflow := by
  have hov : p.captureOverflow = q.captureOverflow := congrArg Assembler.overflow h.assembler_eq
  rw [Packet.noteOverflow, Packet.noteOverflow, ← hov]
  split
  · exact h.captureInfo h.ts rfl
  · exact h

theorem Agree.notePhyError {p q : Packet β} (h : Agree p q) :
    Agree p.notePhyError q.notePhyError := by
  have herr : p.captureDataError = q.captureDataError :=
    congrArg Assembler.dataError h.assembler_eq
  rw [Packet.notePhyError, Packet.notePhyError, ← herr]
  split
  · exact h.captureInfo h.ts rfl
  · exact h

theorem hidden_dataFlush (p : Packet β) : Hidden p p.dataFlush := by
  rw [dataFlush]
  split
  · exact hidden_stopFolding p
  · exact Hidden.refl p

/-- The notes in front of a payload, in both runs. -/
theorem Agree.dataPrepare {p q : Packet β} (h : Agree p q) :
    Agree p.dataPrepare q.dataPrepare :=
  (h.hidden ((hidden_lineStateEvent p).trans (hidden_dataFlush _))
    ((hidden_lineStateEvent q).trans (hidden_dataFlush _))).noteOverflow.notePhyError

/-- The 2 s update depends on the last record, and so on folding; it does
not show. -/
theorem hidden_headerTimeout (p : Packet β) : Hidden p p.headerTimeout := by
  rw [headerTimeout]
  split
  · exact hidden_timeoutEvent p
  · exact Hidden.refl p

theorem Agree.announce {p q : Packet β} (h : Agree p q) : Agree p.announce q.announce := by
  have hrun : Agree { p with done := false } { q with done := false } :=
    ⟨h.shown_eq, ⟨h.left.limit, rfl⟩, ⟨h.right.limit, rfl⟩⟩
  rw [Packet.announce, Packet.announce, ← h.trigger]
  split
  · exact (hrun.captureInfo rfl rfl).update
      (f := fun s => { s with bus := { s.bus with enabled := true } }) rfl rfl rfl rfl
  · exact hrun.captureInfo h.ts rfl

variable [ByteLike β]

/-- Whether the payload is written or folded does not show. -/
theorem hidden_dataWrite (p : Packet β) : Hidden p p.dataWrite := by
  rw [dataWrite]
  split
  · exact hidden_writePacket p _ _
  · split
    · split
      · exact hidden_foldPacket p _ _
      · split
        · exact (hidden_countGroup p _).trans (hidden_foldPacket _ _ _)
        · exact (hidden_stopFolding p).trans (hidden_writePacket _ _ _)
    · split
      · exact hidden_foldPacket p _ _
      · exact hidden_writePacket p _ _

theorem Agree.dataEvent {p q : Packet β} (h : Agree p q) : Agree p.dataEvent q.dataEvent := by
  rw [Packet.dataEvent, Packet.dataEvent, ← h.enabled]
  split
  · exact h
  · have hw := h.dataPrepare.hidden (hidden_dataWrite _) (hidden_dataWrite _)
    exact hw.hidden (hidden_checkCaptureLimit hw.left) (hidden_checkCaptureLimit hw.right)

/-! ## The frame assembler -/

theorem Agree.desyncError {p q : Packet β} (h : Agree p q) :
    Agree p.desyncError q.desyncError := by
  have h₁ := h.captureInfo h.ts (m := .desynchronization) rfl
  have h₂ : Agree (noteHeader (Packet.captureInfo p p.captureTs .desynchronization))
      (noteHeader (Packet.captureInfo q q.captureTs .desynchronization)) := by
    refine h₁.captureInfo h₁.ts ?_
    rw [dataBytes, dataBytes, h₁.data, h₁.size]
  exact h₂.assemble
    (f := fun a => { a with size := 0, dataPtr := 0, header := true, status := false })
    rfl rfl rfl rfl

theorem Agree.checkHeader {p q : Packet β} (h : Agree p q) (toggle zeroBit : Nat) :
    Agree (p.checkHeader toggle zeroBit) (q.checkHeader toggle zeroBit) := by
  have htog : p.captureToggle = q.captureToggle := congrArg Assembler.toggle h.assembler_eq
  have h₁ : Agree (p.noteToggle toggle) (q.noteToggle toggle) := by
    rw [noteToggle, noteToggle, ← htog]
    split
    · exact h.captureInfo h.ts rfl
    · exact h
  have h₂ : Agree ((p.noteToggle toggle).noteZeroBit zeroBit)
      ((q.noteToggle toggle).noteZeroBit zeroBit) := by
    rw [noteZeroBit, noteZeroBit]
    split
    · exact h₁.captureInfo h₁.ts rfl
    · exact h₁
  rw [Packet.checkHeader, Packet.checkHeader, ← htog]
  split
  · exact h
  · exact h₂.desyncError

theorem Agree.byteAt {p q : Packet β} (h : Agree p q) (i : Nat) : p.byteAt i = q.byteAt i := by
  rw [Packet.byteAt, Packet.byteAt, h.data]

theorem Agree.headerClock {p q : Packet β} (h : Agree p q) :
    Agree p.headerClock q.headerClock := by
  have hnext : p.nextTsInt = q.nextTsInt := by
    have hint : p.captureTsInt = q.captureTsInt := congrArg Assembler.tsInt h.assembler_eq
    rw [nextTsInt, nextTsInt, h.byteAt, hint]
  have hts : p.headerTs = q.headerTs := by
    rw [headerTs, headerTs, h.byteAt, h.byteAt, h.byteAt]
  refine h.assemble
    (f := fun a => { a with
      tsInt := p.nextTsInt
      ts := (p.nextTsInt ||| p.headerTs) * 100 / 6
      toggle := 1 - flag (p.byteAt 0) 0x40 }) rfl ?_ rfl rfl
  rw [hnext, hts, h.byteAt]
  rfl

theorem Agree.headerCommon {p q : Packet β} (h : Agree p q) :
    Agree p.headerCommon q.headerCommon := by
  have hclock := (h.checkHeader (flag (p.byteAt 0) 0x40) (flag (p.byteAt 0) 0x20)).headerClock
  rw [Packet.headerCommon, Packet.headerCommon, ← h.byteAt]
  exact hclock.hidden (hidden_headerTimeout _) (hidden_headerTimeout _)

theorem Agree.headerSize {p q : Packet β} (h : Agree p q) : p.headerSize = q.headerSize := by
  rw [Packet.headerSize, Packet.headerSize, h.byteAt, h.byteAt]

theorem Agree.startPayload {p q : Packet β} (h : Agree p q) :
    Agree p.startPayload q.startPayload := by
  refine h.assemble
    (f := fun a => { a with
      size := (p.headerSize : Int) - dataHeaderSize
      overflow := p.byteAt 3 &&& 0x08 ≠ 0
      crcError := p.byteAt 3 &&& 0x10 ≠ 0
      dataError := p.byteAt 3 &&& 0x20 ≠ 0
      duration := (p.byteAt 5).toNat * 256 + (p.byteAt 6).toNat
      header := (p.headerSize : Int) - dataHeaderSize = 0
      dataPtr := 0 }) rfl ?_ rfl rfl
  rw [h.headerSize, h.byteAt, h.byteAt, h.byteAt]
  rfl

theorem Agree.dataHeader {p q : Packet β} (h : Agree p q) : Agree p.dataHeader q.dataHeader := by
  rw [Packet.dataHeader, Packet.dataHeader, ← h.headerSize]
  split
  · rw [checkDataSize, checkDataSize]
    split
    · exact h
    · exact (h.captureInfo h.ts rfl).desyncError
  · exact h.startPayload

theorem Agree.headerDone {p q : Packet β} (h : Agree p q) : Agree p.headerDone q.headerDone := by
  have hc := h.headerCommon
  have hst : p.headerCommon.captureStatus = q.headerCommon.captureStatus :=
    congrArg Assembler.status hc.assembler_eq
  rw [Packet.headerDone, Packet.headerDone, ← hst]
  split
  · rw [statusHeader, statusHeader, statusOf, statusOf, hc.byteAt]
    exact (hc.statusEvent _ _ _ _).rewind
  · exact hc.dataHeader

theorem Agree.payloadDone {p q : Packet β} (h : Agree p q) :
    Agree p.payloadDone q.payloadDone := by
  have hheader : Agree { p with captureHeader := true } { q with captureHeader := true } :=
    h.assemble (f := fun a => { a with header := true }) rfl rfl rfl rfl
  exact hheader.dataEvent.rewind

theorem Agree.startFrame {p q : Packet β} (h : Agree p q) (b : β) :
    Agree (p.startFrame b) (q.startFrame b) := by
  have hcond : (p.captureHeader && p.captureDataPtr == 0) =
      (q.captureHeader && q.captureDataPtr == 0) := by
    rw [h.header, h.dataPtr]
  by_cases hc : (p.captureHeader && p.captureDataPtr == 0) = true
  · have hc' := hcond.symm.trans hc
    rw [Packet.startFrame, Packet.startFrame, if_pos hc, if_pos hc']
    exact h.assemble
      (f := fun a => { a with
        status := startsStatus b
        size := if startsStatus b then statusHeaderSize else dataHeaderSize }) rfl rfl rfl rfl
  · rw [Packet.startFrame, Packet.startFrame, if_neg hc, if_neg (hcond ▸ hc)]
    exact h

theorem Agree.captureSm {p q : Packet β} (h : Agree p q) (b : β) :
    Agree (p.captureSm b) (q.captureSm b) := by
  have hs := (h.startFrame b).storeByte b
  rw [Packet.captureSm, Packet.captureSm, frameStep, frameStep, ← hs.dataPtr, ← hs.size,
    ← hs.header]
  split
  · exact hs
  · split
    · exact hs.headerDone
    · exact hs.payloadDone

/-! ## Whole runs -/

/-- **Bytes**, in both runs. -/
theorem Agree.feed {p q : Packet β} (h : Agree p q) (data : List β) :
    Agree (p.feed data) (q.feed data) := by
  induction data generalizing p q with
  | nil => rwa [feed_nil, feed_nil]
  | cons b bs ih =>
      rw [feed_cons h.left.running, feed_cons h.right.running]
      exact ih (h.captureSm b)

theorem Agree.call {p q : Packet β} (h : Agree p q) (c : PacketCall β) :
    Agree (p.call c) (q.call c) := by
  cases c with
  | announce => exact h.announce
  | feed data => exact h.feed data
  | rsync => exact h.captureInfo h.ts rfl
  | info msg => exact h.captureInfo h.ts rfl
  | stopInfo reason => exact h.captureInfo h.ts rfl

theorem Agree.run {p q : Packet β} (h : Agree p q) (calls : List (PacketCall β)) :
    Agree (p.run calls) (q.run calls) := by
  induction calls generalizing p q with
  | nil => exact h
  | cons c cs ih => exact ih (h.call c)

/-- **`--fold` is output only.** Whatever calls two packets take, and
after every byte of the next `packet_feed`, they agree on the frame
assembler and the bus state, and have written the same records apart from
packets, line states, keep-alives, fold summaries and periodic updates,
if their options differ in `fold_empty` only and set no limit. -/
theorem run_fold_outputOnly (opts opts' : PacketOpts)
    (hopts : { opts' with foldEmpty := opts.foldEmpty } = opts)
    (hlimit : opts.captureLimit ≤ 0) (calls : List (PacketCall UInt8)) (data : List UInt8) :
    let p := ((new opts).run calls).feed data
    let p' := ((new opts').run calls).feed data
    p.assembler = p'.assembler ∧ p.bus = p'.bus ∧
      p.out.filter Record.firm = p'.out.filter Record.firm := by
  have hlimit' : opts'.captureLimit ≤ 0 := by
    rw [← hopts] at hlimit
    exact hlimit
  have hsettings : { opts with foldEmpty := false, captureLimit := 0 } =
      { opts' with foldEmpty := false, captureLimit := 0 } := by
    rw [← hopts]
  have hnew : Agree (new opts : Packet UInt8) (new opts') := by
    refine ⟨?_, ⟨hlimit, rfl⟩, ⟨hlimit', rfl⟩⟩
    exact congrArg (fun s => { (new opts : Packet UInt8).shown with settings := s }) hsettings
  have h := (hnew.run calls).feed data
  exact ⟨h.assembler_eq, h.bus_eq, congrArg Shown.records h.shown_eq⟩

/-- One data frame: a lone SOF byte. -/
def sofFrame : List UInt8 := [0x80, 0, 0, 0, 8, 0, 0, 0xa5]

/-- A SOF, held back by folding and written without. -/
theorem run_fold_outputOnly_sofFrame :
    foldOpts.captureLimit ≤ 0 ∧
      (((new foldOpts).run [.announce]).feed sofFrame).bus =
        (((new { foldOpts with foldEmpty := false }).run [.announce]).feed sofFrame).bus :=
  ⟨by decide,
    (run_fold_outputOnly foldOpts { foldOpts with foldEmpty := false } rfl (by decide)
      [.announce] sofFrame).2.1⟩

end Packet

end UsbSniffer
