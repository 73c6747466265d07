import UsbSniffer.Packet.Records
import UsbSniffer.Packet.Account

/-!
# The fold buffer keeps the account

The five places of `packet.c` that flush, reset or extend the fold buffer
are followed by a ledger: what was written, what the "Folded" records
add up to, what is in the buffer and the running count. Each operation
of the code is one operation of the ledger (`ledger_*`), and after every
call the ledger agrees with the account of the capture events
(`run_settled`). What the account says of groups is then true of the
output.

At the end of a session the code writes its last text record and leaves
the buffer as it is. `session_nothingLost_iff` says which sessions come
out whole all the same.
-/

namespace UsbSniffer

variable {β : Type}

/-- The capture event a record stands for: a packet of interface 0 or a
`"Keep-alive"` record. -/
def Record.captured : Record β → Option (Captured β)
  | .epb _ data => some (.packet data)
  | .info _ .keepAlive => some .keepalive
  | .info _ _ => none

/-- The `N` of a `"Folded N empty frames"` record. -/
def Record.foldedFrames : Record β → Nat
  | .info _ (.folded n) => n
  | _ => 0

/-- What a frame in the fold buffer will be written as. -/
def CaptureFrame.captured (f : CaptureFrame β) : Captured β :=
  if f.size < 0 then .keepalive else .packet f.data

/-! ## The ledger -/

/-- Output and fold buffer, as far as folding goes. -/
structure Ledger (β : Type) where
  written : List (Captured β)
  folded : Nat
  buffer : List (Captured β)
  count : Nat

namespace Ledger

def write (l : Ledger β) (c : Captured β) : Ledger β := { l with written := l.written ++ [c] }

def hold (l : Ledger β) (c : Captured β) : Ledger β := { l with buffer := l.buffer ++ [c] }

def drop (l : Ledger β) : Ledger β := { l with buffer := [], count := l.count + 1 }

def flush (l : Ledger β) : Ledger β where
  written := l.written ++ l.buffer
  folded := l.folded + l.count
  buffer := []
  count := 0

end Ledger

namespace Packet

def ledger (p : Packet β) : Ledger β where
  written := p.out.filterMap Record.captured
  folded := (p.out.map Record.foldedFrames).sum
  buffer := p.captureFoldBuf.map CaptureFrame.captured
  count := p.captureFoldCount

/-- The texts that neither are a capture event nor count any. -/
def Aside : Msg → Prop
  | .keepAlive => False
  | .folded _ => False
  | _ => True

theorem aside_lineClosed : LineClosed Aside := fun _ _ => trivial

theorem captured_of_aside {m : Msg} (h : Aside m) (ts : UInt64) :
    (Record.info ts m : Record β).captured = none := by
  cases m <;> first | rfl | exact h.elim

theorem foldedFrames_of_aside {m : Msg} (h : Aside m) (ts : UInt64) :
    (Record.info ts m : Record β).foldedFrames = 0 := by
  cases m <;> first | rfl | exact h.elim

/-- Text records of other kinds do not touch the ledger. -/
theorem InfoOnly.ledger {p p' : Packet β} (h : InfoOnly Aside p p') : p'.ledger = p.ledger := by
  obtain ⟨w, t, s, rfl, hw⟩ := h
  have hcap : (w.map infoRecord : List (Record β)).filterMap Record.captured = [] := by
    rw [List.filterMap_eq_nil_iff]
    intro r hr
    obtain ⟨x, hx, rfl⟩ := List.mem_map.mp hr
    exact captured_of_aside (hw x hx) x.1
  have hfold : ((w.map infoRecord : List (Record β)).map Record.foldedFrames).sum = 0 := by
    rw [List.sum_eq_zero]
    intro n hn
    obtain ⟨r, hr, rfl⟩ := List.mem_map.mp hn
    obtain ⟨x, hx, rfl⟩ := List.mem_map.mp hr
    exact foldedFrames_of_aside (hw x hx) x.1
  simp only [Packet.ledger, List.filterMap_append, List.map_append, List.sum_append, hcap, hfold,
    List.append_nil, Nat.add_zero]

theorem ledger_captureInfo {m : Msg} (hm : Aside m) (p : Packet β) (ts : UInt64) :
    (captureInfo p ts m).ledger = p.ledger :=
  (InfoOnly.captureInfo aside_lineClosed hm p ts).ledger

theorem ledger_lineStateEvent (p : Packet β) : p.lineStateEvent.ledger = p.ledger :=
  (InfoOnly.lineStateEvent aside_lineClosed p).ledger

theorem ledger_writePacket (p : Packet β) (ts : UInt64) (data : List β) :
    (writePacket p ts data).ledger = p.ledger.write (.packet data) := by
  simp [ledger, writePacket, Ledger.write, Record.captured, Record.foldedFrames,
    List.filterMap_append]

/-- A text record behind the pending line state. -/
theorem ledger_writeInfo (p : Packet β) (ts : UInt64) (m : Msg) :
    (captureInfo p ts m).ledger = (writeInfo p.lineStateEvent ts m).ledger := rfl

theorem ledger_writeKeepalive (p : Packet β) (ts : UInt64) :
    (writeKeepalive p ts).ledger = p.ledger.write .keepalive := by
  rw [writeKeepalive, ledger_writeInfo, ← ledger_lineStateEvent p]
  simp [ledger, writeInfo, Ledger.write, Record.captured, Record.foldedFrames,
    List.filterMap_append]

theorem ledger_flushFrame (p : Packet β) (f : CaptureFrame β) :
    (flushFrame p f).ledger = p.ledger.write f.captured := by
  rw [flushFrame, CaptureFrame.captured]
  split
  · exact ledger_writeKeepalive p _
  · exact ledger_writePacket p _ _

theorem ledger_flush (buf : List (CaptureFrame β)) (p : Packet β) :
    (buf.foldl flushFrame p).ledger =
      { p.ledger with written := p.ledger.written ++ buf.map CaptureFrame.captured } := by
  induction buf generalizing p with
  | nil => rw [List.foldl_nil, List.map_nil, List.append_nil]
  | cons f fs ih =>
      rw [List.foldl_cons, ih, ledger_flushFrame, Ledger.write, List.map_cons,
        List.append_assoc, List.singleton_append]

theorem ledger_noteFolded (p : Packet β) (count : Nat) :
    (p.noteFolded count).ledger = { p.ledger with folded := p.ledger.folded + count } := by
  rw [noteFolded]
  split
  · rename_i h0
    rw [h0, Nat.add_zero]
  · rw [ledger_writeInfo, ← ledger_lineStateEvent p]
    simp [ledger, writeInfo, Record.captured, Record.foldedFrames, List.filterMap_append]

/-- `stop_folding`, whether or not there is anything to flush. -/
theorem ledger_stopFolding (p : Packet β) : p.stopFolding.ledger = p.ledger.flush := by
  rw [stopFolding]
  split
  · rename_i h0
    have hbuf : p.captureFoldBuf = [] := List.eq_nil_of_length_eq_zero h0.2
    simp [ledger, Ledger.flush, h0.1, hbuf]
  · rw [ledger_noteFolded, flushBuf, ledger_flush]
    rfl

theorem ledger_checkCaptureLimit (p : Packet β) : p.checkCaptureLimit.ledger = p.ledger := by
  rw [checkCaptureLimit]
  split
  · exact ledger_captureInfo (m := .captureLimitReached) trivial p.limitDown p.captureTs
  · rfl

theorem ledger_foldPacket (p : Packet β) (ts : UInt64) (data : List β) :
    (foldPacket p ts data).ledger = p.ledger.hold (.packet data) := by
  have hsize : ¬ ((data.length : Int) < 0) := by omega
  simp [ledger, foldPacket, Ledger.hold, CaptureFrame.captured, hsize]

theorem ledger_foldKeepalive (p : Packet β) (ts : UInt64) {delta : Int} (hd : 0 < delta) :
    (foldKeepalive p ts delta).ledger = p.ledger.hold .keepalive := by
  simp [ledger, foldKeepalive, Ledger.hold, CaptureFrame.captured, hd]

theorem ledger_statusTrigger (p : Packet β) (trigger : Int) :
    (p.statusTrigger trigger).ledger = p.ledger := by
  have hi := ledger_captureInfo (m := .triggerInput trigger) trivial (p.setTrigger trigger)
    p.captureTs
  rw [statusTrigger, noteGate]
  split
  · rfl
  · split
    · exact (ledger_captureInfo (m := .startingCapture) trivial _ _).trans hi
    · split
      · exact (ledger_captureInfo (m := .waitingForTrigger) trivial _ _).trans hi
      · exact hi

theorem ledger_statusVbus (p : Packet β) (vbus : Int) : (p.statusVbus vbus).ledger = p.ledger := by
  rw [statusVbus]
  split
  · rfl
  · exact ledger_captureInfo (m := .vbus _) trivial { p with captureVbus := vbus } _

theorem aside_speedMsg (speed : CaptureSpeed) : Aside (speedMsg speed) := by
  cases speed <;> exact trivial

theorem ledger_statusSpeed (p : Packet β) (speed : CaptureSpeed) :
    (p.statusSpeed speed).ledger = p.ledger := by
  rw [statusSpeed]
  split
  · rfl
  · split
    · exact ledger_captureInfo (aside_speedMsg speed) { p with captureSpeedIn := some speed } _
    · rfl

/-! ## The ledger agrees with the account -/

end Packet

/-- The ledger shows what the account says: the output is the written
events, the buffer is the open group, and every deleted group is in a
record or in the running count. -/
structure Reports (l : Ledger β) (a : Account β) : Prop where
  written : l.written = a.written
  buffer : l.buffer = a.held.map CaptureEvent.captured
  counted : l.folded + l.count = a.deleted

/-- Between events, the count runs only while a group is open. -/
structure Settled (l : Ledger β) (a : Account β) : Prop extends Reports l a where
  tidy : l.buffer = [] → l.count = 0

theorem Account.flush_of_nil {a : Account β} (hnil : a.held = []) : a.flush = a := by
  cases a
  cases hnil
  simp [Account.flush]

theorem Account.drop_of_nil {a : Account β} (hnil : a.held = []) : a.drop = a := by
  cases a
  cases hnil
  rfl

namespace Reports

theorem held_nil_iff {l : Ledger β} {a : Account β} (h : Reports l a) :
    l.buffer = [] ↔ a.held = [] := by
  rw [h.buffer, List.map_eq_nil_iff]

theorem flush {l : Ledger β} {a : Account β} (h : Reports l a) : Settled l.flush a.flush where
  written := by
    have hmap : (a.held.map Part.written).filterMap Part.captured =
        a.held.map CaptureEvent.captured := by
      rw [List.filterMap_map, ← List.filterMap_eq_map]
      rfl
    rw [Ledger.flush, Account.written, Account.flush, List.filterMap_append, hmap, h.written,
      h.buffer]
    rfl
  buffer := rfl
  counted := by
    rw [Account.deleted_flush]
    exact h.counted
  tidy := fun _ => rfl

theorem drop {l : Ledger β} {a : Account β} (h : Reports l a) (hne : a.held ≠ []) :
    Reports l.drop a.drop where
  written := by
    rw [Account.written, Account.drop, if_neg hne, List.filterMap_append]
    exact h.written.trans (List.append_nil _).symm
  buffer := rfl
  counted := by
    have hc := h.counted
    rw [Account.deleted] at hc
    rw [Account.deleted, Account.drop, if_neg hne, List.countP_append, ← hc]
    exact Nat.add_assoc l.folded l.count 1

/-- An account with nothing held is not changed by a flush. -/
theorem flush_nil {l : Ledger β} {a : Account β} (h : Reports l a) (hnil : a.held = []) :
    Settled l.flush a := by
  have hf := h.flush
  rwa [Account.flush_of_nil hnil] at hf

theorem hold {l : Ledger β} {a : Account β} (h : Reports l a) (e : CaptureEvent β) :
    Settled (l.hold e.captured) (a.hold e) where
  written := h.written
  buffer := by rw [Ledger.hold, Account.hold, h.buffer, List.map_append, List.map_singleton]
  counted := h.counted
  tidy := fun hnil => absurd hnil (List.append_ne_nil_of_right_ne_nil _ (List.cons_ne_nil _ _))

end Reports

theorem Settled.write {l : Ledger β} {a : Account β} (h : Settled l a) (e : CaptureEvent β) :
    Settled (l.write e.captured) (a.write e) where
  written := by
    rw [Ledger.write, Account.written, Account.write, List.filterMap_append, h.written]
    rfl
  buffer := h.buffer
  counted := by
    rw [Account.deleted, Account.write, List.countP_append]
    exact h.counted
  tidy := h.tidy

namespace Packet

/-! ## The buffer and the open group -/

theorem countGroup_reports {p : Packet β} {a : Account β} (h : Reports p.ledger a)
    (hne : a.held ≠ []) (limit : Nat) : Reports (p.countGroup limit).ledger a.drop := by
  have hd : Reports p.dropGroup.ledger a.drop := h.drop hne
  rw [countGroup]
  split
  · rw [ledger_stopFolding]
    exact (hd.flush_nil rfl).toReports
  · exact hd

theorem foldBuf_nil_iff {p : Packet β} {a : Account β} (h : Reports p.ledger a) :
    p.captureFoldBuf.length = 0 ↔ a.held = [] := by
  rw [← h.held_nil_iff, List.length_eq_zero_iff]
  exact List.map_eq_nil_iff.symm

theorem foldBuf_length {p : Packet β} {a : Account β} (h : Reports p.ledger a) :
    p.captureFoldBuf.length = a.held.length := by
  have hb := congrArg List.length h.buffer
  rwa [List.length_map, ledger, List.length_map] at hb

/-! ## The capture events of a run

Where `data_event` and `keepalive_event` are reached with the gate open,
following the functions that call them. -/

/-- The event `keepalive_event` processes. -/
def keepaliveEvents (p : Packet β) : List (CaptureEvent β) :=
  if p.captureEnabled then [.keepalive] else []

def lineChangeEvents (p : Packet β) (ls : Int) : List (CaptureEvent β) :=
  if p.isKeepalive ls then p.keepaliveEvents else []

def statusLsEvents (p : Packet β) (ls : Int) : List (CaptureEvent β) :=
  if p.captureLs = ls then [] else lineChangeEvents { p with captureLs := ls } ls

/-- The events of `status_event`. -/
def statusEvents (p : Packet β) (ls vbus trigger : Int) (speed : CaptureSpeed) :
    List (CaptureEvent β) :=
  statusLsEvents (statusSpeed (statusVbus (statusTrigger p trigger) vbus) speed) ls

/-- The event `data_event` processes. -/
def frameEvent (p : Packet β) : CaptureEvent β :=
  .packet p.payload p.captureOverflow p.frameError p.allowSof

def dataEvents (p : Packet β) : List (CaptureEvent β) :=
  if p.captureEnabled then [p.frameEvent] else []

/-- A complete payload reaches `data_event`. -/
def payloadDoneEvents (p : Packet β) : List (CaptureEvent β) :=
  dataEvents { p with captureHeader := true }

theorem savedDelta_pos {p : Packet β} {ls : Int} (h : p.isKeepalive ls = true) :
    0 < p.savedDelta := by
  simp only [isKeepalive, Bool.and_eq_true, decide_eq_true_eq] at h
  have hmin : minKeepaliveDuration < p.savedDelta := h.2.1
  rw [minKeepaliveDuration] at hmin
  omega

theorem Emitted.frameEvent {p p' : Packet β} (h : Emitted p p') : p'.frameEvent = p.frameEvent := by
  have hov : p'.captureOverflow = p.captureOverflow := congrArg Assembler.overflow h.assembler_eq
  have hcrc : p'.captureCrcError = p.captureCrcError := congrArg Assembler.crcError h.assembler_eq
  have hphy : p'.captureDataError = p.captureDataError :=
    congrArg Assembler.dataError h.assembler_eq
  rw [Packet.frameEvent, Packet.frameEvent, payload, payload, frameError, frameError, allowSof,
    allowSof, hov, hcrc, hphy, h.size, h.dataBytes, h.effectiveSpeed]

/-- In front of a packet `data_event` flushes what is held, or leaves it. -/
theorem ledger_dataPrepare (p : Packet β) :
    p.dataPrepare.ledger =
      if p.frameEvent.breaks p.captureFoldBuf.length then p.ledger.flush else p.ledger := by
  have hline := ledger_lineStateEvent p
  have hlen : p.lineStateEvent.captureFoldBuf.length = p.captureFoldBuf.length := by
    have hb := congrArg (fun l => l.buffer.length) hline
    simp only [ledger, List.length_map] at hb
    exact hb
  have hbreaks : (p.lineStateEvent.captureOverflow || p.lineStateEvent.frameError ||
      p.lineStateEvent.captureFoldBuf.length == foldBufSize) =
        p.frameEvent.breaks p.captureFoldBuf.length := by
    rw [hlen, ← (emitted_lineStateEvent p).frameEvent]
    rfl
  have hover : ∀ q : Packet β, q.noteOverflow.ledger = q.ledger := by
    intro q
    rw [noteOverflow]
    split
    · exact ledger_captureInfo (m := .hardwareOverflow) trivial _ _
    · rfl
  have hphy : ∀ q : Packet β, q.notePhyError.ledger = q.ledger := by
    intro q
    rw [notePhyError]
    split
    · exact ledger_captureInfo (m := .phyError) trivial _ _
    · rfl
  rw [dataPrepare, hphy, hover, dataFlush, hbreaks]
  split
  · rw [ledger_stopFolding, hline]
  · exact hline

/-- The pending line state, the flush and the error records of
`data_event`. -/
theorem dataPrepare_settled {p : Packet β} {a : Account β} (h : Settled p.ledger a) :
    Settled p.dataPrepare.ledger (a.prepare p.frameEvent) := by
  rw [ledger_dataPrepare, Account.prepare, foldBuf_length h.toReports]
  split
  · exact h.toReports.flush
  · exact h

variable [ByteLike β]

/-- A complete status header reaches `status_event`. -/
def headerDoneEvents (p : Packet β) : List (CaptureEvent β) :=
  if (headerCommon p).captureStatus then
    (headerCommon p).statusEvents ((headerCommon p).byteAt 3 &&& 0x0f).toNat
      (flag ((headerCommon p).byteAt 3) 0x10) (flag ((headerCommon p).byteAt 3) 0x20)
      (speedField ((headerCommon p).byteAt 3))
  else []

def frameStepEvents (p : Packet β) : List (CaptureEvent β) :=
  if p.captureDataPtr < p.captureSize then []
  else if p.captureHeader then headerDoneEvents p
  else payloadDoneEvents p

/-- The events of one byte. -/
def captureSmEvents (p : Packet β) (byte : β) : List (CaptureEvent β) :=
  frameStepEvents (storeByte (startFrame p byte) byte)

/-- The events of `packet_feed`. -/
def feedEvents : Packet β → List β → List (CaptureEvent β)
  | _, [] => []
  | p, b :: bs => if p.done then [] else p.captureSmEvents b ++ feedEvents (p.captureSm b) bs

def callEvents (p : Packet β) : PacketCall β → List (CaptureEvent β)
  | .feed data => p.feedEvents data
  | _ => []

/-- **The capture events of a session**, in arrival order. -/
def runEvents : Packet β → List (PacketCall β) → List (CaptureEvent β)
  | _, [] => []
  | p, c :: cs => p.callEvents c ++ runEvents (p.call c) cs

/-! ## One event -/

/-- What holds between events, when folding is on: the events so far are
accounted for, and the payload phase has a payload to wait for. -/
structure Kept (p : Packet β) (evs : List (CaptureEvent β)) : Prop where
  folding : p.opts.foldEmpty = true
  settled : Settled p.ledger (account evs)
  waiting : p.captureHeader = false → 0 < p.captureSize

/-- `keepalive_event` with the gate open is one event of the account. -/
theorem keepaliveEvent_settled {p : Packet β} {a : Account β} (hf : p.opts.foldEmpty = true)
    (h : Settled p.ledger a) (he : p.captureEnabled = true) (ts : UInt64) {delta : Int}
    (hd : 0 < delta) : Settled (p.keepaliveEvent ts delta).ledger (a.step .keepalive) := by
  have hstep : a.step .keepalive = a.drop.hold .keepalive := rfl
  rw [keepaliveEvent, if_neg (by simp [he]), ledger_checkCaptureLimit, if_neg (by simp [hf]), hstep]
  by_cases hb : p.captureFoldBuf.length ≠ 0
  · rw [if_pos hb, ledger_foldKeepalive _ _ hd]
    have hne : a.held ≠ [] := fun hnil => hb ((foldBuf_nil_iff h.toReports).mpr hnil)
    exact (countGroup_reports h.toReports hne _).hold .keepalive
  · rw [if_neg hb, ledger_foldKeepalive _ _ hd]
    have hnil : a.held = [] := (foldBuf_nil_iff h.toReports).mp (not_not.mp hb)
    rw [Account.drop_of_nil hnil]
    exact h.toReports.hold .keepalive

theorem pidOf_payload {p : Packet β} (h : 0 < p.captureSize) :
    pidOf p.payload = some p.framePid := by
  obtain ⟨n, hn⟩ := Nat.exists_eq_succ_of_ne_zero (Nat.ne_of_gt (Int.pos_iff_toNat_pos.mp h))
  rw [payload, dataBytes, hn, List.range_succ_eq_map]
  rfl

/-- The write-or-fold decision is where the account places the event.
A frame with an error finds nothing held. -/
theorem dataWrite_settled {p : Packet β} {a : Account β} (hf : p.opts.foldEmpty = true)
    (hsize : 0 < p.captureSize) (h : Settled p.ledger a)
    (herr : p.frameError = true → a.held = []) :
    Settled p.dataWrite.ledger (a.place p.frameEvent) := by
  have hpid := pidOf_payload hsize
  have hwrite : ∀ ts, (writePacket p ts p.payload).ledger = p.ledger.write p.frameEvent.captured :=
    fun ts => ledger_writePacket p ts p.payload
  have hstarts : p.frameEvent.starts =
      (!p.frameError && p.allowSof && decide (p.framePid = pidSof)) := by
    rw [frameEvent, CaptureEvent.starts, hpid, Option.some_beq_some]
    rfl
  have hcont : p.frameEvent.continues = (!p.frameError &&
      (decide (p.framePid = pidIn) || decide (p.framePid = pidNak))) := by
    rw [frameEvent, CaptureEvent.continues, hpid, Option.some_beq_some, Option.some_beq_some]
    rfl
  rw [dataWrite, Account.place, hstarts, hcont]
  by_cases hfe : p.frameError = true
  · -- a frame with an error is written behind an empty buffer
    simp only [hfe, Bool.true_or, if_true, Bool.not_true, Bool.false_and, Bool.false_eq_true,
      if_false]
    rw [hwrite, Account.flush_of_nil (herr hfe)]
    exact h.write _
  · have hfe' : p.frameError = false := by simpa using hfe
    simp only [hfe', hf, Bool.not_true, Bool.or_self, Bool.false_eq_true, if_false, Bool.not_false,
      Bool.true_and]
    by_cases hb : p.captureFoldBuf.length ≠ 0
    · have hne : a.held ≠ [] := fun hnil => hb ((foldBuf_nil_iff h.toReports).mpr hnil)
      rw [if_pos hb]
      by_cases hin : p.framePid = pidIn ∨ p.framePid = pidNak
      · have hsof : p.framePid ≠ pidSof := by
          rcases hin with hin | hin <;> rw [hin] <;> decide
        rw [if_pos hin, if_neg (by simp [hsof]), if_pos (by simpa [hne] using hin),
          ledger_foldPacket]
        exact h.toReports.hold p.frameEvent
      · rw [if_neg hin]
        by_cases hsof : p.framePid = pidSof ∧ p.allowSof = true
        · rw [if_pos hsof, if_pos (by simp [hsof]), ledger_foldPacket]
          exact (countGroup_reports h.toReports hne _).hold p.frameEvent
        · rw [if_neg hsof, if_neg (by simpa [and_comm] using hsof),
            if_neg (by simpa using fun hi => absurd hi hin), ledger_writePacket, ledger_stopFolding]
          exact h.toReports.flush.write p.frameEvent
    · have hnil : a.held = [] := (foldBuf_nil_iff h.toReports).mp (not_not.mp hb)
      rw [if_neg hb]
      by_cases hsof : p.framePid = pidSof ∧ p.allowSof = true
      · rw [if_pos hsof, if_pos (by simp [hsof]), ledger_foldPacket, Account.drop_of_nil hnil]
        exact h.toReports.hold p.frameEvent
      · rw [if_neg hsof, if_neg (by simpa [and_comm] using hsof), if_neg (by simp [hnil]), hwrite,
          Account.flush_of_nil hnil]
        exact h.write _

/-- `data_event` with the gate open is one event of the account. -/
theorem dataEvent_settled {p : Packet β} {a : Account β} (hf : p.opts.foldEmpty = true)
    (hsize : 0 < p.captureSize) (h : Settled p.ledger a) (he : p.captureEnabled = true) :
    Settled p.dataEvent.ledger (a.step p.frameEvent) := by
  have hem := emitted_dataPrepare p
  have hprep := dataPrepare_settled h
  rw [dataEvent, if_neg (by simp [he]), ledger_checkCaptureLimit, Account.step, ← hem.frameEvent]
  rw [← hem.frameEvent] at hprep
  refine dataWrite_settled (hem.foldEmpty.trans hf) (hem.size ▸ hsize) hprep ?_
  intro herr
  have hb : p.dataPrepare.frameEvent.breaks a.held.length = true := by
    simp [frameEvent, CaptureEvent.breaks, herr]
  rw [Account.prepare, if_pos hb]
  rfl

theorem keepaliveEvent_steps {p : Packet β} {a : Account β} (hf : p.opts.foldEmpty = true)
    (h : Settled p.ledger a) (ts : UInt64) {delta : Int} (hd : 0 < delta) :
    Settled (p.keepaliveEvent ts delta).ledger (p.keepaliveEvents.foldl Account.step a) := by
  rw [keepaliveEvents]
  by_cases he : p.captureEnabled = true
  · rw [if_pos he]
    exact keepaliveEvent_settled hf h he ts hd
  · rw [if_neg he, keepaliveEvent, if_pos (by simpa using he)]
    exact h

theorem dataEvent_steps {p : Packet β} {a : Account β} (hf : p.opts.foldEmpty = true)
    (hsize : 0 < p.captureSize) (h : Settled p.ledger a) :
    Settled p.dataEvent.ledger (p.dataEvents.foldl Account.step a) := by
  rw [dataEvents]
  by_cases he : p.captureEnabled = true
  · rw [if_pos he]
    exact dataEvent_settled hf hsize h he
  · rw [if_neg he, dataEvent, if_pos (by simpa using he)]
    exact h

/-! ## One byte -/

theorem statusLs_steps {p : Packet β} {a : Account β} (hf : p.opts.foldEmpty = true)
    (h : Settled p.ledger a) (ls : Int) :
    Settled (p.statusLs ls).ledger ((p.statusLsEvents ls).foldl Account.step a) := by
  rw [statusLs, statusLsEvents]
  split
  · exact h
  · rw [lineChange, lineChangeEvents]
    split
    · rename_i hk
      exact keepaliveEvent_steps (p := { p with captureLs := ls, captureSavedLs := lsInvalid })
        hf h _ (savedDelta_pos hk)
    · have hl := ledger_lineStateEvent { p with captureLs := ls }
      exact hl ▸ h

/-- `status_event` is the keep-alive it finds, if any. -/
theorem statusEvent_steps {p : Packet β} {a : Account β} (hf : p.opts.foldEmpty = true)
    (h : Settled p.ledger a) (ls vbus trigger : Int) (speed : CaptureSpeed) :
    Settled (p.statusEvent ls vbus trigger speed).ledger
      ((p.statusEvents ls vbus trigger speed).foldl Account.step a) := by
  have hsig := ((signalled_statusTrigger p trigger).trans (signalled_statusVbus _ vbus)).trans
    (signalled_statusSpeed _ speed)
  refine statusLs_steps (hsig.foldEmpty.trans hf) ?_ ls
  rwa [ledger_statusSpeed, ledger_statusVbus, ledger_statusTrigger]

theorem aside_of_complaint (m : Msg) (h : Complaint m) : Aside m := by
  cases m <;> first | exact trivial | exact h.elim

/-- What a header check leaves alone: folding, the ledger, and the header
phase. -/
theorem headerCommon_same (p : Packet β) (hh : p.captureHeader = true) :
    p.headerCommon.ledger = p.ledger ∧ p.headerCommon.opts = p.opts ∧
      p.headerCommon.captureHeader = true := by
  have hc : ∀ t z, (p.checkHeader t z).ledger = p.ledger ∧ (p.checkHeader t z).opts = p.opts ∧
      (p.checkHeader t z).captureHeader = true := by
    intro t z
    rcases checkHeader_eq p t z with he | ⟨q, hq, he⟩
    · rw [he]
      exact ⟨rfl, rfl, hh⟩
    · rw [he]
      refine ⟨(hq.mono aside_of_complaint).ledger, ?_, rfl⟩
      obtain ⟨w, ts, s, rfl, -⟩ := hq
      rfl
  have ht : ∀ q : Packet β, q.headerTimeout.ledger = q.ledger ∧ q.headerTimeout.opts = q.opts ∧
      q.headerTimeout.captureHeader = q.captureHeader := by
    intro q
    have hq : InfoOnly Aside q q.headerTimeout := by
      rw [headerTimeout]
      split
      · exact InfoOnly.timeoutEvent aside_lineClosed trivial q
      · exact InfoOnly.refl q
    refine ⟨hq.ledger, ?_⟩
    obtain ⟨w, ts, s, he, -⟩ := hq
    rw [he]
    exact ⟨rfl, rfl⟩
  obtain ⟨hl, ho, hhd⟩ := hc (flag (p.byteAt 0) 0x40) (flag (p.byteAt 0) 0x20)
  obtain ⟨hl', ho', hhd'⟩ :=
    ht (p.checkHeader (flag (p.byteAt 0) 0x40) (flag (p.byteAt 0) 0x20)).headerClock
  exact ⟨hl'.trans hl, ho'.trans ho, hhd'.trans hhd⟩

theorem account_append (xs ys : List (CaptureEvent β)) :
    account (xs ++ ys) = ys.foldl Account.step (account xs) := by
  rw [account, account, List.foldl_append]

theorem Kept.headerDone {p : Packet β} {evs : List (CaptureEvent β)} (h : Kept p evs)
    (hh : p.captureHeader = true) : Kept p.headerDone (evs ++ p.headerDoneEvents) := by
  obtain ⟨hl, ho, hhd⟩ := headerCommon_same p hh
  have hf : p.headerCommon.opts.foldEmpty = true := by rw [ho]; exact h.folding
  have hs : Settled p.headerCommon.ledger (account evs) := hl ▸ h.settled
  rw [Packet.headerDone, headerDoneEvents]
  split
  · have hsig := signalled_statusEvent p.headerCommon (p.headerCommon.byteAt 3 &&& 0x0f).toNat
      (flag (p.headerCommon.byteAt 3) 0x10) (flag (p.headerCommon.byteAt 3) 0x20)
      (speedField (p.headerCommon.byteAt 3))
    refine ⟨hsig.foldEmpty.trans hf, ?_, ?_⟩
    · rw [account_append]
      exact statusEvent_steps hf hs _ _ _ _
    · intro hfalse
      have hsame : p.headerCommon.statusHeader.captureHeader = p.headerCommon.captureHeader :=
        congrArg Assembler.header hsig.assembler_eq
      rw [hsame, hhd] at hfalse
      cases hfalse
  · rw [List.append_nil, dataHeader]
    split
    · rename_i hbad
      obtain ⟨q, hq, he⟩ := checkDataSize_eq (p := p.headerCommon) hbad
      rw [he]
      have hql : q.resetFrame.ledger = p.headerCommon.ledger := (hq.mono aside_of_complaint).ledger
      refine ⟨?_, by rw [hql]; exact hs, fun hfalse => by cases hfalse⟩
      exact hq.emitted.foldEmpty.trans hf
    · rename_i hgood
      refine ⟨hf, hs, ?_⟩
      intro hfalse
      have hne : ¬ ((p.headerCommon.headerSize : Int) - dataHeaderSize = 0) := by
        simpa [startPayload] using hfalse
      show (0 : Int) < p.headerCommon.headerSize - dataHeaderSize
      omega

theorem Kept.payloadDone {p : Packet β} {evs : List (CaptureEvent β)} (h : Kept p evs)
    (hh : p.captureHeader = false) : Kept p.payloadDone (evs ++ p.payloadDoneEvents) := by
  have hem := emitted_dataEvent { p with captureHeader := true }
  refine ⟨hem.foldEmpty.trans h.folding, ?_, ?_⟩
  · rw [account_append]
    exact dataEvent_steps (p := { p with captureHeader := true }) h.folding (h.waiting hh) h.settled
  · intro hfalse
    have hsame : p.payloadDone.captureHeader = true := congrArg Assembler.header hem.assembler_eq
    rw [hsame] at hfalse
    cases hfalse

/-- **One byte keeps the account.** -/
theorem Kept.captureSm {p : Packet β} {evs : List (CaptureEvent β)} (h : Kept p evs) (b : β) :
    Kept (p.captureSm b) (evs ++ p.captureSmEvents b) := by
  have hst : Kept ((p.startFrame b).storeByte b) evs := by
    rw [startFrame]
    split
    · rename_i hs
      rw [Bool.and_eq_true] at hs
      refine ⟨h.folding, h.settled, fun hfalse => ?_⟩
      have hh : p.captureHeader = false := hfalse
      rw [hh] at hs
      cases hs.1
    · exact ⟨h.folding, h.settled, h.waiting⟩
  rw [Packet.captureSm, captureSmEvents, frameStep, frameStepEvents]
  split
  · rw [List.append_nil]
    exact hst
  · split
    · rename_i hh
      exact hst.headerDone hh
    · rename_i hh
      exact hst.payloadDone (by simpa using hh)

/-! ## Runs -/

theorem Kept.feed {data : List β} {p : Packet β} {evs : List (CaptureEvent β)} (h : Kept p evs) :
    Kept (p.feed data) (evs ++ p.feedEvents data) := by
  induction data generalizing p evs with
  | nil =>
      rw [feed_nil, feedEvents, List.append_nil]
      exact h
  | cons b bs ih =>
      by_cases hd : p.done = true
      · rw [feed_of_done hd, feedEvents, if_pos hd, List.append_nil]
        exact h
      · have hd' : p.done = false := by simpa using hd
        rw [feed_cons hd', feedEvents, if_neg hd, ← List.append_assoc]
        exact ih (h.captureSm b)

/-- A text record is no event. -/
theorem Kept.captureInfo {p : Packet β} {evs : List (CaptureEvent β)} (h : Kept p evs) {m : Msg}
    (hm : Aside m) (ts : UInt64) : Kept (captureInfo p ts m) evs := by
  refine ⟨(emitted_captureInfo p ts m).foldEmpty.trans h.folding, ?_, ?_⟩
  · rw [ledger_captureInfo hm]
    exact h.settled
  · rw [captureInfo_eq]
    exact h.waiting

theorem Kept.announce {p : Packet β} {evs : List (CaptureEvent β)} (h : Kept p evs) :
    Kept p.announce evs := by
  have hd : Kept { p with done := false } evs := ⟨h.folding, h.settled, h.waiting⟩
  rw [Packet.announce]
  split
  · have hi := hd.captureInfo (m := .startingCapture) trivial 0
    exact ⟨hi.folding, hi.settled, hi.waiting⟩
  · exact hd.captureInfo (m := .waitingForTrigger) trivial _

theorem Kept.quiet {p : Packet β} {evs : List (CaptureEvent β)} (h : Kept p evs) :
    Kept p (evs ++ []) := by
  rwa [List.append_nil]

theorem Kept.call {p : Packet β} {evs : List (CaptureEvent β)} (h : Kept p evs)
    (c : PacketCall β) : Kept (p.call c) (evs ++ p.callEvents c) := by
  cases c with
  | announce => exact h.announce.quiet
  | feed data => exact h.feed
  | rsync => exact (h.captureInfo (m := .linkLoss) trivial _).quiet
  | info msg => exact (h.captureInfo (m := .plain msg) trivial _).quiet
  | stopInfo reason => exact (h.captureInfo (m := .stopped reason) trivial _).quiet

theorem Kept.run {calls : List (PacketCall β)} {p : Packet β} {evs : List (CaptureEvent β)}
    (h : Kept p evs) : Kept (p.run calls) (evs ++ p.runEvents calls) := by
  induction calls generalizing p evs with
  | nil =>
      rw [runEvents, List.append_nil]
      exact h
  | cons c cs ih =>
      rw [runEvents, ← List.append_assoc]
      exact ih (h.call c)

/-- A fresh packet keeps the account of no events. -/
theorem kept_new {opts : PacketOpts} (hf : opts.foldEmpty = true) :
    Kept (new opts : Packet β) [] where
  folding := hf
  settled := ⟨⟨rfl, rfl, rfl⟩, fun _ => rfl⟩
  waiting := nofun

/-- Whatever is called on a fresh packet, ledger and account agree. -/
theorem run_settled (opts : PacketOpts) (hf : opts.foldEmpty = true)
    (calls : List (PacketCall β)) :
    Settled ((new opts : Packet β).run calls).ledger
      (account ((new opts : Packet β).runEvents calls)) :=
  (kept_new hf).run.settled

/-- **Folding accounts for every capture event.** After any bytes and any
calls, the events so far fall into written ones, which are the output's
packets and keep-alives in order, deleted groups, and the group in the
fold buffer; the "Folded" records and the running count add up to the
deleted groups. -/
theorem run_fold_accounting (opts : PacketOpts) (hf : opts.foldEmpty = true)
    (calls : List (PacketCall UInt8)) :
    ∃ (parts : List (Part UInt8)) (held : List (CaptureEvent UInt8)),
      (new opts).runEvents calls = parts.flatMap Part.events ++ held ∧
      ((new opts).run calls).out.filterMap Record.captured = parts.filterMap Part.captured ∧
      (∀ g, .deleted g ∈ parts → IsGroup g) ∧
      (held = [] ∨ IsGroup held) ∧
      ((new opts).run calls).captureFoldBuf.map CaptureFrame.captured =
        held.map CaptureEvent.captured ∧
      (((new opts).run calls).out.map Record.foldedFrames).sum +
        ((new opts).run calls).captureFoldCount = parts.countP Part.isDeleted := by
  have hs := run_settled opts hf calls
  have hw := account_wf ((new opts).runEvents calls)
  exact ⟨(account ((new opts).runEvents calls)).parts, (account ((new opts).runEvents calls)).held,
    (account_events _).symm, hs.written, hw.groups, hw.open_group, hs.buffer, hs.counted⟩

/-- Two SOF groups and an OUT: the first group is deleted, the second
flushed in front of the OUT. -/
def foldSession : List (PacketCall UInt8) :=
  [.announce, .feed [0x80, 0, 0, 0, 10, 0, 0, 0xa5, 0, 1], .feed [0xc0, 0, 60, 0, 8, 0, 0, 0x69],
    .feed [0x80, 0, 120, 0, 10, 0, 0, 0xa5, 1, 1], .feed [0xc0, 0, 180, 0, 8, 0, 0, 0xe1]]

theorem run_fold_accounting_foldSession :
    ∃ (parts : List (Part UInt8)) (held : List (CaptureEvent UInt8)),
      (new foldOpts).runEvents foldSession = parts.flatMap Part.events ++ held ∧
      ((new foldOpts).run foldSession).out.filterMap Record.captured =
        parts.filterMap Part.captured ∧
      (∀ g, .deleted g ∈ parts → IsGroup g) ∧
      (held = [] ∨ IsGroup held) ∧
      ((new foldOpts).run foldSession).captureFoldBuf.map CaptureFrame.captured =
        held.map CaptureEvent.captured ∧
      (((new foldOpts).run foldSession).out.map Record.foldedFrames).sum +
        ((new foldOpts).run foldSession).captureFoldCount = parts.countP Part.isDeleted :=
  run_fold_accounting foldOpts rfl foldSession

example : ((new foldOpts).run foldSession).out.filterMap Record.captured =
    [.packet [0xa5, 1, 1], .packet [0xe1]] := by decide

/-! ## The end of a session -/

/-- Every capture event has been written, or belongs to a deleted group
that a "Folded" record counts. -/
def NothingLost (p : Packet β) (evs : List (CaptureEvent β)) : Prop :=
  ∃ parts : List (Part β), evs = parts.flatMap Part.events ∧
    (∀ g, .deleted g ∈ parts → IsGroup g) ∧
    p.out.filterMap Record.captured = parts.filterMap Part.captured ∧
    (p.out.map Record.foldedFrames).sum = parts.countP Part.isDeleted

/-- The session is over: the limit was reached, or its last call was
`packet_stop_info`. -/
def Ended (p : Packet β) (calls : List (PacketCall β)) : Prop :=
  (p.run calls).done = true ∨ ∃ cs reason, calls = cs ++ [.stopInfo reason]

/-- With nothing held, the account is the partition. -/
theorem nothingLost_of_held_nil {p : Packet β} {evs : List (CaptureEvent β)}
    (h : Settled p.ledger (account evs)) (hnil : (account evs).held = []) :
    NothingLost p evs := by
  have hev := account_events evs
  rw [Account.events, hnil, List.append_nil] at hev
  refine ⟨(account evs).parts, hev.symm, (account_wf evs).groups, h.written, ?_⟩
  have hcount : p.ledger.count = 0 := h.tidy (h.held_nil_iff.mpr hnil)
  have hc := h.counted
  rw [hcount, Nat.add_zero] at hc
  exact hc

/-- With a group held, the marks of the events are one more than the
output explains, however the events are divided. -/
theorem held_nil_of_nothingLost {p : Packet β} {evs : List (CaptureEvent β)}
    (h : Settled p.ledger (account evs)) (hn : NothingLost p evs) : (account evs).held = [] := by
  by_contra hne
  obtain ⟨parts, hparts, hgroups, hwritten, hfolded⟩ := hn
  have hw := account_wf evs
  have hmarks := marks_parts hgroups
  have hmarks' := marks_parts hw.groups
  have hone := (hw.open_group.resolve_left hne).marks_eq
  have hev := congrArg marks (account_events evs)
  rw [Account.events, marks_append, hone] at hev
  have hc : (p.out.map Record.foldedFrames).sum + p.captureFoldCount =
      (account evs).parts.countP Part.isDeleted := h.counted
  have hout : p.out.filterMap Record.captured = (account evs).parts.filterMap Part.captured :=
    h.written
  rw [← hparts, ← hwritten, ← hfolded] at hmarks
  rw [← hout, ← hc] at hmarks'
  omega

theorem foldBuf_empty_iff {p : Packet β} {evs : List (CaptureEvent β)}
    (h : Settled p.ledger (account evs)) :
    (p.captureFoldBuf = [] ∧ p.captureFoldCount = 0) ↔ (account evs).held = [] := by
  constructor
  · rintro ⟨hbuf, -⟩
    exact (foldBuf_nil_iff h.toReports).mp (by rw [hbuf]; rfl)
  · intro hnil
    have hbuf := List.eq_nil_of_length_eq_zero ((foldBuf_nil_iff h.toReports).mpr hnil)
    exact ⟨hbuf, h.tidy (h.held_nil_iff.mpr hnil)⟩

theorem endsOpen_iff_held (evs : List (CaptureEvent β)) :
    ¬ EndsOpen evs ↔ (account evs).held = [] := by
  rw [← account_held_iff, not_not]

/-- **A session loses nothing exactly when its capture events do not end
in an open group**: an ended session has all its events written or
counted, and the fold buffer and the running count empty, if and only if
the last foldable SOF or keep-alive was followed by something that
flushed it. Neither `packet_stop_info` nor the capture limit does. -/
theorem session_nothingLost_iff (opts : PacketOpts) (hf : opts.foldEmpty = true)
    (calls : List (PacketCall UInt8)) : Ended (new opts) calls →
    (NothingLost ((new opts).run calls) ((new opts).runEvents calls) ↔
      ¬ EndsOpen ((new opts).runEvents calls)) ∧
    ((((new opts).run calls).captureFoldBuf = [] ∧ ((new opts).run calls).captureFoldCount = 0) ↔
      ¬ EndsOpen ((new opts).runEvents calls)) := by
  intro _
  have hs := run_settled opts hf calls
  rw [endsOpen_iff_held]
  exact ⟨⟨held_nil_of_nothingLost hs, nothingLost_of_held_nil hs⟩, foldBuf_empty_iff hs⟩

theorem session_nothingLost_iff_foldSession :
    Ended (new foldOpts) (foldSession ++ [.stopInfo "User request"]) ∧
    (NothingLost ((new foldOpts).run (foldSession ++ [.stopInfo "User request"]))
        ((new foldOpts).runEvents (foldSession ++ [.stopInfo "User request"])) ↔
      ¬ EndsOpen ((new foldOpts).runEvents (foldSession ++ [.stopInfo "User request"]))) :=
  have hend : Ended (new foldOpts) (foldSession ++ [.stopInfo "User request"]) :=
    Or.inr ⟨foldSession, "User request", rfl⟩
  ⟨hend, (session_nothingLost_iff foldOpts rfl _ hend).1⟩

/-- One SOF, and the end. -/
def lossySession : List (PacketCall UInt8) :=
  [.announce, .feed [0x80, 0, 0, 0, 10, 0, 0, 0xa5, 0, 1], .stopInfo "User request"]

/-- The SOF of `lossySession` is a capture event and never reaches the
output: not as a packet, and not in a "Folded" record. -/
theorem lossySession_loses :
    Ended (new foldOpts) lossySession ∧
    (new foldOpts).runEvents lossySession = [.packet [0xa5, 0, 1] false false true] ∧
    ((new foldOpts).run lossySession).out =
      [.info 0 .startingCapture, .info 0 (.stopped "User request")] ∧
    ¬ NothingLost ((new foldOpts).run lossySession) ((new foldOpts).runEvents lossySession) := by
  have hev : (new foldOpts).runEvents lossySession = [.packet [0xa5, 0, 1] false false true] := by
    decide
  have hout : ((new foldOpts).run lossySession).out =
      [.info 0 .startingCapture, .info 0 (.stopped "User request")] := by decide
  refine ⟨Or.inr ⟨lossySession.take 2, "User request", rfl⟩, hev, hout, ?_⟩
  intro hn
  have hheld := held_nil_of_nothingLost (run_settled foldOpts rfl lossySession) hn
  rw [hev] at hheld
  revert hheld
  decide

end Packet

end UsbSniffer
