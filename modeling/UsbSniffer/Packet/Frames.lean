import UsbSniffer.Packet.Assembly

/-!
# Decoding well-formed frames

The FPGA's side of the frame layer: the frames it may send, their bytes,
and what a capture of them has to show (`packetsOf`). `feed_frames` says
that `packet_feed` shows exactly that, whatever the frames, their order,
the trigger and the chunks the bytes arrive in.

The proof goes frame by frame. Between two frames the packet is in step
with the frames seen so far (`InStep`); a status frame and a data frame
each keep it so.
-/

namespace UsbSniffer

/-! ## Frames and their bytes -/

/-- The overflow bit and the 20-bit timestamp of a frame. -/
structure FrameClock where
  tsOverflow : Bool
  ts : Nat
  ts_lt : ts < 2 ^ 20

theorem FrameClock.zero_lt : 0 < 2 ^ 20 := Nat.two_pow_pos 20

theorem FrameClock.ten_lt : 10 < 2 ^ 20 := by decide

/-- A well-formed frame. The flags of a status frame are its whole fourth
byte; those of a data frame are the five high bits of its fourth byte. -/
inductive Frame where
  | status (clock : FrameClock) (flags : UInt8)
  | data (clock : FrameClock) (flags : UInt8) (duration : UInt16) (payload : List UInt8)
      (payload_le : payload.length ≤ maxDataSize - dataHeaderSize)

/-- The first byte of a frame: kind, toggle, zero bit, overflow and the
four high bits of the timestamp. -/
def headByte (isData toggle tsOverflow : Bool) (high : Nat) : UInt8 :=
  UInt8.ofNat ((if isData then 0x80 else 0) + (if toggle then 0x40 else 0) +
    (if tsOverflow then 0x10 else 0) + high)

/-- The fourth byte of a data frame. -/
def sizeByte (flags : UInt8) (high : Nat) : UInt8 := (flags &&& 0xf8) ||| UInt8.ofNat high

namespace FrameClock

/-- The first three bytes of a frame. -/
def encode (c : FrameClock) (isData toggle : Bool) : List UInt8 :=
  [headByte isData toggle c.tsOverflow (c.ts / 2 ^ 16), UInt8.ofNat (c.ts / 2 ^ 8 % 2 ^ 8),
    UInt8.ofNat (c.ts % 2 ^ 8)]

end FrameClock

namespace Frame

def clock : Frame → FrameClock
  | .status clock _ => clock
  | .data clock _ _ _ _ => clock

def tsOverflow (f : Frame) : Bool := f.clock.tsOverflow

/-- The frame on the wire, with its toggle bit. -/
def encode (toggle : Bool) : Frame → List UInt8
  | .status clock flags => clock.encode false toggle ++ [flags]
  | .data clock flags duration payload _ =>
      clock.encode true toggle ++
        [sizeByte flags ((dataHeaderSize + payload.length) / 2 ^ 8),
          UInt8.ofNat ((dataHeaderSize + payload.length) % 2 ^ 8), (duration >>> 8).toUInt8,
          duration.toUInt8] ++ payload

/-- The trigger input a status frame reports. -/
def triggerBit : Frame → Option Bool
  | .status _ flags => some (flags &&& 0x20 != 0)
  | .data _ _ _ _ _ => none

end Frame

/-- Frames on the wire: the toggle bit alternates. -/
def encodeFrames : Bool → List Frame → List UInt8
  | _, [] => []
  | toggle, f :: fs => f.encode toggle ++ encodeFrames (!toggle) fs

/-! ## What a capture has to show -/

/-- The trigger inputs of the frames seen. -/
def triggerBits (seen : List Frame) : List Bool := seen.filterMap Frame.triggerBit

/-- The gate after the frames seen: by level, the last input decides; by
edge, any edge so far. -/
def gateOpen (trigger : CaptureTrigger) (seen : List Frame) : Bool :=
  match trigger with
  | .disabled => true
  | .low => (triggerBits seen).getLast? == some false
  | .high => (triggerBits seen).getLast? == some true
  | .falling => decide ([true, false] <:+: triggerBits seen)
  | .rising => decide ([false, true] <:+: triggerBits seen)

/-- The 60 MHz time of a frame: its timestamp, and one turn of it for
every overflow bit up to and including its own. -/
def frameTime (seen : List Frame) (f : Frame) : Nat :=
  f.clock.ts + 0x100000 * (seen ++ [f]).countP Frame.tsOverflow

/-- The packet a frame stands for: time in ns, and payload. -/
def packetOf (trigger : CaptureTrigger) (seen : List Frame) : Frame → List (Nat × List UInt8)
  | .status _ _ => []
  | f@(.data _ _ _ payload _) =>
      if payload ≠ [] ∧ gateOpen trigger seen then [(frameTime seen f * 100 / 6, payload)] else []

/-- The packets of `fs`, behind the frames seen. -/
def packetsFrom (trigger : CaptureTrigger) : List Frame → List Frame → List (Nat × List UInt8)
  | _, [] => []
  | seen, f :: fs => packetOf trigger seen f ++ packetsFrom trigger (seen ++ [f]) fs

/-- **The packets a capture of these frames has to show.** -/
def packetsOf (trigger : CaptureTrigger) (fs : List Frame) : List (Nat × List UInt8) :=
  packetsFrom trigger [] fs

/-- A packet in the output: time in ns, and payload. -/
def Record.packet {β : Type} : Record β → Option (Nat × List β)
  | .epb ts data => some (ts.toNat, data)
  | .info _ _ => none

/-- The record's text starts with `"Error:"`. -/
def Record.IsError {β : Type} : Record β → Prop
  | .epb _ _ => False
  | .info _ m => "Error:".toList <+: m.text.toList

/-! ## Header bytes -/

theorem headByte_bits (isData toggle tsOverflow : Bool) (high : Fin 16) :
    Packet.startsStatus (headByte isData toggle tsOverflow high) = !isData ∧
    Packet.flag (headByte isData toggle tsOverflow high) 0x40 = toggle.toNat ∧
    Packet.flag (headByte isData toggle tsOverflow high) 0x20 = 0 ∧
    (headByte isData toggle tsOverflow high &&& 0x10 ≠ 0 ↔ tsOverflow = true) ∧
    (headByte isData toggle tsOverflow high &&& 0xf).toNat = high := by
  revert isData toggle tsOverflow high
  decide

/-- A mask of the fourth byte sees the flags above and the size below. -/
theorem sizeByte_and (flags mask : UInt8) (high : Nat) :
    sizeByte flags high &&& mask = (flags &&& (0xf8 &&& mask)) ||| (UInt8.ofNat high &&& mask) := by
  apply UInt8.toBitVec_inj.mp
  simp only [sizeByte, UInt8.toBitVec_and, UInt8.toBitVec_or]
  rw [BitVec.and_or_distrib_right, BitVec.and_assoc]

theorem sizeByte_high (flags : UInt8) (high : Fin 8) :
    (sizeByte flags high &&& 0x7).toNat = high := by
  rw [sizeByte_and, show (0xf8 : UInt8) &&& 0x7 = 0 by decide, UInt8.and_zero, UInt8.zero_or]
  revert high
  decide

/-! ## Text records in between -/

/-- The texts of a capture in which nothing goes wrong. -/
def Quiet : Msg → Prop
  | .keepAlive | .periodicUpdate | .lineState _ _ | .triggerInput _ | .startingCapture
  | .waitingForTrigger | .vbus _ | .busReset | .detectedSpeed _ | .hardwareOverflow
  | .phyError => True
  | _ => False

theorem text_head {m : Msg} {c : Char} {cs : List Char} (h : m.fullText.toList = c :: cs) :
    m.text.toList.head? = some c := by
  rw [Msg.text, String.toList_ofList, h]
  rfl

theorem toList_append_cons {s t : String} {c : Char} {cs : List Char} (h : s.toList = c :: cs) :
    (s ++ t).toList = c :: (cs ++ t.toList) := by
  rw [String.toList_append, h, List.cons_append]

/-- A text with another first letter is no error. -/
theorem not_error_of_head {m : Msg} {c : Char} {cs : List Char}
    (h : m.fullText.toList = c :: cs) (hc : c ≠ 'E') : ¬ "Error:".toList <+: m.text.toList := by
  rintro ⟨t, ht⟩
  have hE : m.text.toList.head? = some 'E' := by
    rw [← ht]
    rfl
  rw [text_head h] at hE
  exact hc (Option.some.inj hE)

theorem quiet_text {m : Msg} (h : Quiet m) : ¬ "Error:".toList <+: m.text.toList := by
  have hhead : ∃ c cs, m.fullText.toList = c :: cs ∧ c ≠ 'E' := by
    cases m with
    | keepAlive => exact ⟨_, _, rfl, by decide⟩
    | periodicUpdate => exact ⟨_, _, rfl, by decide⟩
    | lineState name duration =>
        have hl : "Line state: ".toList = 'L' :: "ine state: ".toList := by decide
        exact ⟨'L', _, toList_append_cons (toList_append_cons hl), by decide⟩
    | triggerInput level =>
        have hl : "Trigger input = ".toList = 'T' :: "rigger input = ".toList := by decide
        exact ⟨'T', _, toList_append_cons hl, by decide⟩
    | startingCapture => exact ⟨_, _, rfl, by decide⟩
    | waitingForTrigger => exact ⟨_, _, rfl, by decide⟩
    | vbus on =>
        have hl : "VBUS ".toList = 'V' :: "BUS ".toList := by decide
        exact ⟨'V', _, toList_append_cons hl, by decide⟩
    | busReset => exact ⟨_, _, rfl, by decide⟩
    | detectedSpeed speed =>
        have hl : "Detected speed: ".toList = 'D' :: "etected speed: ".toList := by decide
        exact ⟨'D', _, toList_append_cons hl, by decide⟩
    | hardwareOverflow => exact ⟨_, _, rfl, by decide⟩
    | phyError => exact ⟨_, _, rfl, by decide⟩
    | folded => exact h.elim
    | captureLimitReached => exact h.elim
    | desynchronization => exact h.elim
    | packetHeader => exact h.elim
    | toggleError => exact h.elim
    | zeroBitError => exact h.elim
    | dataSizeError => exact h.elim
    | linkLoss => exact h.elim
    | plain => exact h.elim
    | stopped => exact h.elim
  obtain ⟨c, cs, hc, hne⟩ := hhead
  exact not_error_of_head hc hne

namespace Packet

variable {β : Type}

theorem quiet_lineClosed : LineClosed Quiet := fun _ _ => trivial

/-- `p'` is `p` after some quiet text records and changes of the bus
state: the assembler, the settings, the fold buffer and the packets are
the same, and the limit is no nearer. -/
structure Chatter (p p' : Packet β) : Prop where
  assembler_eq : p'.assembler = p.assembler
  settings_eq : p'.settings = p.settings
  done_eq : p'.done = p.done
  limit_le : p'.opts.captureLimit ≤ p.opts.captureLimit
  foldBuf_eq : p'.captureFoldBuf = p.captureFoldBuf
  foldCount_eq : p'.captureFoldCount = p.captureFoldCount
  out_eq : ∃ w : List (UInt64 × Msg), p'.out = p.out ++ w.map infoRecord ∧ ∀ r ∈ w, Quiet r.2

/-- What a change of the bus state alone keeps. -/
def kept (p : Packet β) :
    Assembler β × PacketOpts × Bool × List (CaptureFrame β) × Nat × List (Record β) :=
  (p.assembler, p.opts, p.done, p.captureFoldBuf, p.captureFoldCount, p.out)

theorem Chatter.of_kept {p p' : Packet β} (h : p'.kept = p.kept) : Chatter p p' := by
  simp only [kept, Prod.mk.injEq] at h
  obtain ⟨hasm, hopts, hdone, hbuf, hcount, hout⟩ := h
  have hsettings : p'.settings = p.settings := by rw [settings, settings, hopts]
  exact ⟨hasm, hsettings, hdone, by rw [hopts], hbuf, hcount, [], by simp [hout], by simp⟩

theorem Chatter.refl (p : Packet β) : Chatter p p := .of_kept rfl

theorem Chatter.trans {p p₁ p₂ : Packet β} (h₁ : Chatter p p₁) (h₂ : Chatter p₁ p₂) :
    Chatter p p₂ := by
  obtain ⟨w₁, he₁, hw₁⟩ := h₁.out_eq
  obtain ⟨w₂, he₂, hw₂⟩ := h₂.out_eq
  refine ⟨h₂.1.trans h₁.1, h₂.2.trans h₁.2, h₂.3.trans h₁.3, h₂.4.trans h₁.4, h₂.5.trans h₁.5,
    h₂.6.trans h₁.6, w₁ ++ w₂, ?_, ?_⟩
  · rw [he₂, he₁, List.map_append, List.append_assoc]
  · intro r hr
    rcases List.mem_append.mp hr with hr | hr
    · exact hw₁ r hr
    · exact hw₂ r hr

theorem InfoOnly.chatter {p p' : Packet β} (h : InfoOnly Quiet p p') : Chatter p p' := by
  obtain ⟨w, t, s, rfl, hw⟩ := h
  exact ⟨rfl, rfl, rfl, le_rfl, rfl, rfl, w, rfl, hw⟩

theorem chatter_captureInfo {m : Msg} (hm : Quiet m) (p : Packet β) (ts : UInt64) :
    Chatter p (captureInfo p ts m) :=
  (InfoOnly.captureInfo quiet_lineClosed hm p ts).chatter

theorem chatter_lineStateEvent (p : Packet β) : Chatter p p.lineStateEvent :=
  (InfoOnly.lineStateEvent quiet_lineClosed p).chatter

/-- Folding is off and the capture limit is not in reach. -/
structure Plain (p : Packet β) : Prop where
  unfolded : p.opts.foldEmpty = false
  foldBuf : p.captureFoldBuf = []
  foldCount : p.captureFoldCount = 0
  limit : p.opts.captureLimit ≤ 0
  running : p.done = false

/-- What `Plain` reads. -/
def plainFields (p : Packet β) : PacketOpts × List (CaptureFrame β) × Nat × Bool :=
  (p.opts, p.captureFoldBuf, p.captureFoldCount, p.done)

theorem Plain.congr {p p' : Packet β} (h : Plain p) (hf : p'.plainFields = p.plainFields) :
    Plain p' := by
  simp only [plainFields, Prod.mk.injEq] at hf
  obtain ⟨hopts, hbuf, hcount, hdone⟩ := hf
  exact ⟨hopts ▸ h.unfolded, hbuf.trans h.foldBuf, hcount.trans h.foldCount, hopts ▸ h.limit,
    hdone.trans h.running⟩

theorem Chatter.plain {p p' : Packet β} (h : Chatter p p') (hp : Plain p) : Plain p' where
  unfolded := by
    have hs := congrArg PacketOpts.foldEmpty h.settings_eq
    exact hs.trans hp.unfolded
  foldBuf := h.foldBuf_eq.trans hp.foldBuf
  foldCount := h.foldCount_eq.trans hp.foldCount
  limit := h.limit_le.trans hp.limit
  running := h.done_eq.trans hp.running

theorem stopFolding_of_plain {p : Packet β} (hp : Plain p) : p.stopFolding = p := by
  rw [stopFolding, if_pos ⟨hp.foldCount, by rw [hp.foldBuf]; rfl⟩]

theorem checkCaptureLimit_of_plain {p : Packet β} (hp : Plain p) :
    p.checkCaptureLimit = p.limitDown := by
  have hl := hp.limit
  rw [checkCaptureLimit, if_neg]
  show p.opts.captureLimit - 1 ≠ 0
  omega

theorem chatter_limitDown (p : Packet β) : Chatter p p.limitDown := by
  refine ⟨rfl, rfl, rfl, ?_, rfl, rfl, [], by simp [limitDown], by simp⟩
  show p.opts.captureLimit - 1 ≤ p.opts.captureLimit
  omega

theorem chatter_keepaliveEvent {p : Packet β} (hp : Plain p) (ts : UInt64) (delta : Int) :
    Chatter p (p.keepaliveEvent ts delta) := by
  have hk : Chatter p (p.writeKeepalive ts) := chatter_captureInfo (m := .keepAlive) trivial p ts
  rw [keepaliveEvent, if_pos (show (!p.opts.foldEmpty) = true by simp [hp.unfolded]),
    checkCaptureLimit_of_plain (hk.plain hp)]
  split
  · exact Chatter.refl p
  · exact hk.trans (chatter_limitDown _)

/-! ## Status frames -/

theorem chatter_noteGate (p : Packet β) (wasEnabled : Bool) : Chatter p (p.noteGate wasEnabled) := by
  rw [noteGate]
  split
  · exact chatter_captureInfo (m := .startingCapture) trivial p _
  · split
    · exact chatter_captureInfo (m := .waitingForTrigger) trivial p _
    · exact Chatter.refl p

theorem chatter_statusTrigger (p : Packet β) (trigger : Int) :
    Chatter p (p.statusTrigger trigger) := by
  have hset : Chatter p (p.setTrigger trigger) := .of_kept rfl
  rw [statusTrigger]
  split
  · exact Chatter.refl p
  · exact (hset.trans (chatter_captureInfo (m := .triggerInput trigger) trivial _ _)).trans
      (chatter_noteGate _ _)

theorem chatter_statusVbus (p : Packet β) (vbus : Int) : Chatter p (p.statusVbus vbus) := by
  have hset : Chatter p { p with captureVbus := vbus } := .of_kept rfl
  rw [statusVbus]
  split
  · exact Chatter.refl p
  · exact hset.trans (chatter_captureInfo (m := .vbus _) trivial _ _)

theorem quiet_speedMsg (speed : CaptureSpeed) : Quiet (speedMsg speed) := by
  cases speed <;> exact trivial

theorem chatter_statusSpeed (p : Packet β) (speed : CaptureSpeed) :
    Chatter p (p.statusSpeed speed) := by
  have hset : Chatter p { p with captureSpeedIn := some speed } := .of_kept rfl
  rw [statusSpeed]
  split
  · exact Chatter.refl p
  · split
    · exact hset.trans (chatter_captureInfo (quiet_speedMsg speed) _ _)
    · exact hset

theorem chatter_statusLs {p : Packet β} (hp : Plain p) (ls : Int) : Chatter p (p.statusLs ls) := by
  rw [statusLs, lineChange]
  split
  · exact Chatter.refl p
  · split
    · have hset : Chatter p { p with captureLs := ls, captureSavedLs := lsInvalid } := .of_kept rfl
      exact hset.trans (chatter_keepaliveEvent (hset.plain hp) _ _)
    · have hset : Chatter p { p with captureLs := ls } := .of_kept rfl
      have hl := hset.trans (chatter_lineStateEvent { p with captureLs := ls })
      exact hl.trans (.of_kept rfl)

theorem chatter_statusEvent {p : Packet β} (hp : Plain p) (ls vbus trigger : Int)
    (speed : CaptureSpeed) : Chatter p (p.statusEvent ls vbus trigger speed) := by
  have h := ((chatter_statusTrigger p trigger).trans (chatter_statusVbus _ vbus)).trans
    (chatter_statusSpeed _ speed)
  exact h.trans (chatter_statusLs (h.plain hp) ls)

/-- The remembered trigger input and the gate. -/
def gateState (p : Packet β) : Int × Bool := (p.captureTriggerInput, p.captureEnabled)

theorem Emitted.gateState {p p' : Packet β} (h : Emitted p p') : p'.gateState = p.gateState := by
  have hin : p'.captureTriggerInput = p.captureTriggerInput := congrArg Bus.triggerInput h.bus_eq
  rw [Packet.gateState, Packet.gateState, hin, h.enabled]

theorem gateState_statusTrigger (p : Packet β) (trigger : Int) :
    (p.statusTrigger trigger).gateState =
      (trigger, if p.captureTriggerInput = trigger then p.captureEnabled
        else gate p.opts.captureTrigger p.captureEnabled p.captureTriggerInput trigger) := by
  rw [statusTrigger]
  by_cases h : p.captureTriggerInput = trigger
  · rw [if_pos h, if_pos h, gateState, h]
  · rw [if_neg h, if_neg h, (emitted_noteGate _ _).gateState, (emitted_captureInfo _ _ _).gateState]
    rfl

theorem gateState_statusVbus (p : Packet β) (vbus : Int) :
    (p.statusVbus vbus).gateState = p.gateState := by
  rw [statusVbus, captureInfo_eq]
  split <;> rfl

theorem gateState_statusSpeed (p : Packet β) (speed : CaptureSpeed) :
    (p.statusSpeed speed).gateState = p.gateState := by
  rw [statusSpeed, captureInfo_eq]
  split
  · rfl
  · split <;> rfl

theorem gateState_statusLs (p : Packet β) (ls : Int) :
    (p.statusLs ls).gateState = p.gateState := by
  rw [statusLs, lineChange, lineStateEvent_eq]
  split
  · rfl
  · split
    · exact (emitted_keepaliveEvent _ _ _).gateState
    · rfl

/-- `status_event` updates the gate by the trigger input alone. -/
theorem gateState_statusEvent (p : Packet β) (ls vbus trigger : Int) (speed : CaptureSpeed) :
    (p.statusEvent ls vbus trigger speed).gateState =
      (trigger, if p.captureTriggerInput = trigger then p.captureEnabled
        else gate p.opts.captureTrigger p.captureEnabled p.captureTriggerInput trigger) := by
  rw [statusEvent, gateState_statusLs, gateState_statusSpeed, gateState_statusVbus,
    gateState_statusTrigger]

/-! ## Data frames -/

/-- With the gate open and folding off, `data_event` writes the packet,
and otherwise quiet text only. -/
theorem dataEvent_of_plain {p : Packet β} [ByteLike β] (hp : Plain p)
    (he : p.captureEnabled = true) :
    ∃ q, Chatter p q ∧ q.gateState = p.gateState ∧
      p.dataEvent = limitDown (writePacket q p.captureTs p.payload) := by
  have hline := chatter_lineStateEvent p
  have hflush : p.lineStateEvent.dataFlush = p.lineStateEvent := by
    rw [dataFlush, stopFolding_of_plain (hline.plain hp), ite_self]
  have hov : Chatter p p.lineStateEvent.noteOverflow := by
    rw [noteOverflow]
    split
    · exact hline.trans (chatter_captureInfo (m := .hardwareOverflow) trivial _ _)
    · exact hline
  have hprep : Chatter p p.dataPrepare := by
    rw [dataPrepare, hflush, notePhyError]
    split
    · exact hov.trans (chatter_captureInfo (m := .phyError) trivial _ _)
    · exact hov
  have hem := emitted_dataPrepare p
  refine ⟨p.dataPrepare, hprep, hem.gateState, ?_⟩
  have hplain := hprep.plain hp
  have hwrite : p.dataPrepare.dataWrite = writePacket p.dataPrepare p.captureTs p.payload := by
    rw [dataWrite, if_pos (by simp [hplain.unfolded]), hem.ts, payload, payload, hem.size,
      hem.dataBytes]
  rw [dataEvent, if_neg (by simp [he]), hwrite, checkCaptureLimit_of_plain]
  exact hplain.congr rfl

end Packet

/-! ## The gate of the specification -/

/-- The trigger input `packet.c` remembers. -/
def inputOf (seen : List Frame) : Int :=
  match (triggerBits seen).getLast? with
  | none => -1
  | some b => b.toNat

theorem pair_suffix_concat {α : Type} (l : List α) (x y b : α) :
    [x, y] <:+ l ++ [b] ↔ l.getLast? = some x ∧ b = y := by
  constructor
  · rintro ⟨t, ht⟩
    have hcons : t ++ [x] ++ [y] = l ++ [b] := by rw [List.append_assoc]; exact ht
    obtain ⟨hl, hb⟩ := List.append_inj' hcons rfl
    rw [← hl]
    exact ⟨List.getLast?_concat, (List.cons.inj hb).1.symm⟩
  · rintro ⟨hl, rfl⟩
    obtain ⟨t, rfl⟩ := List.getLast?_eq_some_iff.mp hl
    exact ⟨t, by rw [List.append_assoc]; rfl⟩

/-- A new edge is one between the last input and the new one. -/
theorem pair_infix_concat {α : Type} (l : List α) (x y b : α) :
    [x, y] <:+: l ++ [b] ↔ [x, y] <:+: l ∨ (l.getLast? = some x ∧ b = y) := by
  rw [List.infix_concat_iff, pair_suffix_concat, or_comm]

theorem triggerBits_status (seen : List Frame) (clock : FrameClock) (flags : UInt8) :
    triggerBits (seen ++ [.status clock flags]) = triggerBits seen ++ [flags &&& 0x20 != 0] := by
  rw [triggerBits, List.filterMap_append]
  rfl

theorem triggerBits_data (seen : List Frame) (clock : FrameClock) (flags : UInt8)
    (duration : UInt16) (payload : List UInt8) (h) :
    triggerBits (seen ++ [.data clock flags duration payload h]) = triggerBits seen := by
  rw [triggerBits, List.filterMap_append]
  exact List.append_nil _

/-- The gate of `status_event`, input by input. -/
theorem gate_concat (trigger : CaptureTrigger) (bits : List Bool) (b : Bool) (seen next : List Frame)
    (hseen : triggerBits seen = bits) (hnext : triggerBits next = bits ++ [b]) :
    gateOpen trigger next =
      if inputOf seen = b.toNat then gateOpen trigger seen
      else Packet.gate trigger (gateOpen trigger seen) (inputOf seen) b.toNat := by
  have hin : inputOf seen = match bits.getLast? with | none => -1 | some b => (b.toNat : Int) := by
    rw [inputOf, hseen]
  rw [hin]
  cases trigger with
  | disabled => simp [gateOpen, Packet.gate]
  | low =>
      simp only [gateOpen, hseen, hnext, List.getLast?_concat, Packet.gate]
      cases hl : bits.getLast? with
      | none => cases b <;> simp
      | some c => cases b <;> cases c <;> simp
  | high =>
      simp only [gateOpen, hseen, hnext, List.getLast?_concat, Packet.gate]
      cases hl : bits.getLast? with
      | none => cases b <;> simp
      | some c => cases b <;> cases c <;> simp
  | falling =>
      simp only [gateOpen, hseen, hnext, pair_infix_concat, Packet.gate]
      cases hl : bits.getLast? with
      | none => cases b <;> simp
      | some c => cases b <;> cases c <;> simp
  | rising =>
      simp only [gateOpen, hseen, hnext, pair_infix_concat, Packet.gate]
      cases hl : bits.getLast? with
      | none => cases b <;> simp
      | some c => cases b <;> cases c <;> simp

/-! ## The clock -/

namespace Packet

/-- Three header bytes hold a clock. -/
structure ClockBytes (p : Packet UInt8) (c : FrameClock) (isData toggle : Bool) : Prop where
  head : p.byteAt 0 = headByte isData toggle c.tsOverflow (c.ts / 2 ^ 16)
  mid : p.byteAt 1 = UInt8.ofNat (c.ts / 2 ^ 8 % 2 ^ 8)
  low : p.byteAt 2 = UInt8.ofNat (c.ts % 2 ^ 8)

theorem clock_high_lt (c : FrameClock) : c.ts / 2 ^ 16 < 16 := by
  have h := c.ts_lt
  omega

theorem headerTs_toNat {p : Packet UInt8} {c : FrameClock} {isData toggle : Bool}
    (h : ClockBytes p c isData toggle) : p.headerTs.toNat = c.ts := by
  have hlt := c.ts_lt
  have hhigh : (p.byteAt 0 &&& 0xf).toNat = c.ts / 2 ^ 16 := by
    rw [h.head]
    exact (headByte_bits isData toggle c.tsOverflow ⟨_, clock_high_lt c⟩).2.2.2.2
  have hmid : (p.byteAt 1).toNat = c.ts / 2 ^ 8 % 2 ^ 8 := by
    rw [h.mid, UInt8.toNat_ofNat']
    omega
  have hlow : (p.byteAt 2).toNat = c.ts % 2 ^ 8 := by
    rw [h.low, UInt8.toNat_ofNat']
    omega
  rw [headerTs, UInt64.toNat_or, UInt64.toNat_or, UInt64.toNat_shiftLeft, UInt64.toNat_shiftLeft,
    UInt8.toNat_toUInt64, UInt8.toNat_toUInt64, UInt8.toNat_toUInt64, hhigh, hmid, hlow]
  have h16 : (c.ts / 2 ^ 16) <<< ((16 : UInt64).toNat % 64) % 2 ^ 64 = 2 ^ 16 * (c.ts / 2 ^ 16) := by
    rw [Nat.shiftLeft_eq]
    show c.ts / 2 ^ 16 * 2 ^ 16 % 2 ^ 64 = _
    omega
  have h8 : (c.ts / 2 ^ 8 % 2 ^ 8) <<< ((8 : UInt64).toNat % 64) % 2 ^ 64 =
      2 ^ 8 * (c.ts / 2 ^ 8 % 2 ^ 8) := by
    rw [Nat.shiftLeft_eq]
    show c.ts / 2 ^ 8 % 2 ^ 8 * 2 ^ 8 % 2 ^ 64 = _
    omega
  rw [h16, h8, Nat.or_assoc, ← Nat.two_pow_add_eq_or_of_lt (Nat.mod_lt _ (by norm_num)),
    ← Nat.two_pow_add_eq_or_of_lt (by omega)]
  omega

theorem nextTsInt_toNat {p : Packet UInt8} {c : FrameClock} {isData toggle : Bool}
    (h : ClockBytes p c isData toggle) {n : Nat} (hn : p.captureTsInt.toNat = 0x100000 * n)
    (hlt : n < 2 ^ 37) : p.nextTsInt.toNat = 0x100000 * (n + c.tsOverflow.toNat) := by
  have hbit := (headByte_bits isData toggle c.tsOverflow ⟨_, clock_high_lt c⟩).2.2.2.1
  rw [nextTsInt, h.head]
  cases ho : c.tsOverflow with
  | false =>
      rw [ho] at hbit
      rw [if_neg (fun hne => Bool.false_ne_true (hbit.mp hne)), hn]
      rfl
  | true =>
      rw [ho] at hbit
      rw [if_pos (hbit.mpr rfl), UInt64.toNat_add, hn]
      show (0x100000 * n + 0x100000) % 2 ^ 64 = 0x100000 * (n + 1)
      omega

/-- The time of a header: the accumulated turns and the timestamp, in
ns. No run with fewer than `2 ^ 37` turns overflows the product. -/
theorem headerTime_toNat {p : Packet UInt8} {c : FrameClock} {isData toggle : Bool}
    (h : ClockBytes p c isData toggle) {n : Nat} (hn : p.captureTsInt.toNat = 0x100000 * n)
    (hlt : n < 2 ^ 37) :
    ((p.nextTsInt ||| p.headerTs) * 100 / 6).toNat =
      (c.ts + 0x100000 * (n + c.tsOverflow.toNat)) * 100 / 6 := by
  have hts := c.ts_lt
  have hb : c.tsOverflow.toNat ≤ 1 := Bool.toNat_le c.tsOverflow
  have hor : (p.nextTsInt ||| p.headerTs).toNat =
      c.ts + 0x100000 * (n + c.tsOverflow.toNat) := by
    rw [UInt64.toNat_or, nextTsInt_toNat h hn hlt, headerTs_toNat h,
      show 0x100000 = 2 ^ 20 from rfl, ← Nat.two_pow_add_eq_or_of_lt hts, Nat.add_comm]
  rw [UInt64.toNat_div, UInt64.toNat_mul, hor]
  show (c.ts + 0x100000 * (n + c.tsOverflow.toNat)) * 100 % 2 ^ 64 / 6 = _
  rw [Nat.mod_eq_of_lt (by omega)]

/-! ## Between two frames -/

/-- The packet is at a frame boundary, in step with the frames seen. -/
structure InStep (trigger : CaptureTrigger) (toggle : Bool) (seen : List Frame)
    (p : Packet UInt8) : Prop where
  plain : Plain p
  header : p.captureHeader = true
  dataPtr : p.captureDataPtr = 0
  toggle_eq : p.captureToggle = toggle.toNat
  tsInt : p.captureTsInt.toNat = 0x100000 * seen.countP Frame.tsOverflow
  trigger_eq : p.opts.captureTrigger = trigger
  gate_eq : p.gateState = (inputOf seen, gateOpen trigger seen)
  packets : p.out.filterMap Record.packet = packetsOf trigger seen
  quiet : ∀ r ∈ p.out, ¬ r.IsError

/-- Text records are no packets. -/
theorem filterMap_packet_info {β : Type} (w : List (UInt64 × Msg)) :
    (w.map infoRecord : List (Record β)).filterMap Record.packet = [] := by
  rw [List.filterMap_eq_nil_iff]
  intro r hr
  obtain ⟨x, -, rfl⟩ := List.mem_map.mp hr
  rfl

theorem Chatter.packets {p p' : Packet UInt8} (h : Chatter p p') :
    p'.out.filterMap Record.packet = p.out.filterMap Record.packet := by
  obtain ⟨w, he, -⟩ := h.out_eq
  rw [he, List.filterMap_append, filterMap_packet_info, List.append_nil]

theorem Chatter.quiet {p p' : Packet UInt8} (h : Chatter p p')
    (hq : ∀ r ∈ p.out, ¬ r.IsError) : ∀ r ∈ p'.out, ¬ r.IsError := by
  obtain ⟨w, he, hw⟩ := h.out_eq
  intro r hr
  rw [he] at hr
  rcases List.mem_append.mp hr with hr | hr
  · exact hq r hr
  · obtain ⟨x, hx, rfl⟩ := List.mem_map.mp hr
    exact quiet_text (hw x hx)

theorem Chatter.trigger {p p' : Packet UInt8} (h : Chatter p p') :
    p'.opts.captureTrigger = p.opts.captureTrigger := by
  have hs := congrArg PacketOpts.captureTrigger h.settings_eq
  exact hs

end Packet

theorem packetsFrom_concat (trigger : CaptureTrigger) (fs : List Frame) (seen : List Frame)
    (f : Frame) : packetsFrom trigger seen (fs ++ [f]) =
      packetsFrom trigger seen fs ++ packetOf trigger (seen ++ fs) f := by
  induction fs generalizing seen with
  | nil => rw [List.nil_append, packetsFrom, packetsFrom, packetsFrom, List.append_nil,
      List.append_nil, List.nil_append]
  | cons g gs ih =>
      rw [List.cons_append, packetsFrom, packetsFrom, ih, List.append_assoc, List.append_assoc,
        List.singleton_append]

theorem packetsOf_concat (trigger : CaptureTrigger) (seen : List Frame) (f : Frame) :
    packetsOf trigger (seen ++ [f]) = packetsOf trigger seen ++ packetOf trigger seen f := by
  rw [packetsOf, packetsFrom_concat, List.nil_append, packetsOf]

namespace Packet

/-- A header of the frame `f` is complete and its clock taken over. -/
structure Clocked (trigger : CaptureTrigger) (toggle : Bool) (seen : List Frame) (f : Frame)
    (p : Packet UInt8) : Prop where
  plain : Plain p
  header : p.captureHeader = true
  toggle_eq : p.captureToggle = (!toggle).toNat
  tsInt : p.captureTsInt.toNat = 0x100000 * (seen ++ [f]).countP Frame.tsOverflow
  ts : p.captureTs.toNat = frameTime seen f * 100 / 6
  trigger_eq : p.opts.captureTrigger = trigger
  gate_eq : p.gateState = (inputOf seen, gateOpen trigger seen)
  packets : p.out.filterMap Record.packet = packetsOf trigger seen
  quiet : ∀ r ∈ p.out, ¬ r.IsError

theorem chatter_headerTimeout (p : Packet UInt8) :
    Chatter p p.headerTimeout ∧ p.headerTimeout.gateState = p.gateState := by
  have hi : InfoOnly Quiet p p.headerTimeout := by
    rw [headerTimeout]
    split
    · exact InfoOnly.timeoutEvent quiet_lineClosed trivial p
    · exact InfoOnly.refl p
  exact ⟨hi.chatter, hi.emitted.gateState⟩

/-- The header of a well-formed frame passes the checks; its clock is
taken over and nothing else happens. -/
theorem InStep.clocked {trigger : CaptureTrigger} {toggle isData : Bool} {seen : List Frame}
    {p : Packet UInt8} (h : InStep trigger toggle seen p) (hfew : seen.countP Frame.tsOverflow < 2 ^ 37) {f : Frame}
    {b : UInt8} {bs : List UInt8} (hb : ClockBytes (p.withHeader b bs) f.clock isData toggle) :
    Clocked trigger toggle seen f (p.withHeader b bs).headerCommon ∧
      (p.withHeader b bs).headerCommon.captureStatus = startsStatus b ∧
      (p.withHeader b bs).headerCommon.captureData = storeBytes p.captureData 0 (b :: bs) := by
  obtain ⟨-, hflag, hzero, -, -⟩ :=
    headByte_bits isData toggle f.clock.tsOverflow ⟨_, clock_high_lt f.clock⟩
  rw [← hb.head] at hflag hzero
  have hcheck : (p.withHeader b bs).checkHeader (flag ((p.withHeader b bs).byteAt 0) 0x40)
      (flag ((p.withHeader b bs).byteAt 0) 0x20) = p.withHeader b bs := by
    rw [checkHeader, if_pos ⟨hflag.trans h.toggle_eq.symm, hzero⟩]
  have hcommon : (p.withHeader b bs).headerCommon = (p.withHeader b bs).headerClock.headerTimeout := by
    rw [headerCommon, hcheck]
  obtain ⟨hc, hg⟩ := chatter_headerTimeout (p.withHeader b bs).headerClock
  have hcount : (seen ++ [f]).countP Frame.tsOverflow =
      seen.countP Frame.tsOverflow + f.clock.tsOverflow.toNat := by
    rw [List.countP_append, List.countP_singleton, Frame.tsOverflow]
    cases f.clock.tsOverflow <;> rfl
  have hplain : Plain (p.withHeader b bs).headerClock := h.plain.congr rfl
  rw [hcommon]
  refine ⟨⟨hc.plain hplain, ?_, ?_, ?_, ?_, ?_, ?_, ?_, ?_⟩, ?_, ?_⟩
  · exact (congrArg Assembler.header hc.assembler_eq).trans h.header
  · refine (congrArg Assembler.toggle hc.assembler_eq).trans ?_
    show 1 - flag ((p.withHeader b bs).byteAt 0) 0x40 = (!toggle).toNat
    rw [hflag]
    cases toggle <;> rfl
  · rw [hcount, ← nextTsInt_toNat hb h.tsInt hfew]
    exact congrArg (fun a => UInt64.toNat (Assembler.tsInt a)) hc.assembler_eq
  · rw [frameTime, hcount, ← headerTime_toNat hb h.tsInt hfew]
    exact congrArg (fun a => UInt64.toNat (Assembler.ts a)) hc.assembler_eq
  · exact hc.trigger.trans h.trigger_eq
  · exact hg.trans h.gate_eq
  · exact hc.packets.trans h.packets
  · exact hc.quiet h.quiet
  · exact congrArg Assembler.status hc.assembler_eq
  · exact congrArg Assembler.data hc.assembler_eq

theorem Chatter.clocked {trigger : CaptureTrigger} {toggle : Bool} {seen : List Frame} {f : Frame}
    {p p' : Packet UInt8} (hc : Chatter p p') (hg : p'.gateState = p.gateState)
    (h : Clocked trigger toggle seen f p) : Clocked trigger toggle seen f p' where
  plain := hc.plain h.plain
  header := (congrArg Assembler.header hc.assembler_eq).trans h.header
  toggle_eq := (congrArg Assembler.toggle hc.assembler_eq).trans h.toggle_eq
  tsInt := (congrArg (fun a => UInt64.toNat (Assembler.tsInt a)) hc.assembler_eq).trans h.tsInt
  ts := (congrArg (fun a => UInt64.toNat (Assembler.ts a)) hc.assembler_eq).trans h.ts
  trigger_eq := hc.trigger.trans h.trigger_eq
  gate_eq := hg.trans h.gate_eq
  packets := hc.packets.trans h.packets
  quiet := hc.quiet h.quiet

/-! ## Status frames -/

theorem byteAt_stored {p : Packet UInt8} {data : Nat → UInt8} {bs : List UInt8}
    (h : p.captureData = storeBytes data 0 bs) {i : Nat} {x : UInt8} (hx : bs[i]? = some x) :
    p.byteAt i = x := by
  obtain ⟨hi, rfl⟩ := List.getElem?_eq_some_iff.mp hx
  rw [byteAt, h, storeBytes_get data bs ⟨i, hi⟩]
  rfl

/-- The header bytes of a frame, in front of what is left of its
header. -/
theorem clockBytes_withHeader (p : Packet UInt8) (c : FrameClock) (isData toggle : Bool)
    (tail : List UInt8) :
    ClockBytes (p.withHeader (headByte isData toggle c.tsOverflow (c.ts / 2 ^ 16))
      (UInt8.ofNat (c.ts / 2 ^ 8 % 2 ^ 8) :: UInt8.ofNat (c.ts % 2 ^ 8) :: tail)) c isData toggle where
  head := byteAt_stored rfl rfl
  mid := byteAt_stored rfl rfl
  low := byteAt_stored rfl rfl

theorem flag_eq_bit (flags : UInt8) :
    (flag flags 0x20 : Int) = ((flags &&& 0x20 != 0).toNat : Int) := by
  rw [flag]
  by_cases h : flags &&& 0x20 = 0
  · rw [h]
    rfl
  · rw [if_pos h, bne_iff_ne.mpr h]
    rfl

/-- The bytes of a status frame. -/
theorem status_bytes (toggle : Bool) (clock : FrameClock) (flags : UInt8) :
    ∃ b bs, (Frame.status clock flags).encode toggle = b :: bs ∧
      startsStatus b = true ∧ bs.length + 1 = headerLength b ∧
      (∀ p : Packet UInt8, ClockBytes (p.withHeader b bs) clock false toggle) ∧
      (b :: bs)[3]? = some flags := by
  have hst : startsStatus (headByte false toggle clock.tsOverflow (clock.ts / 2 ^ 16)) =
      true := (headByte_bits false toggle clock.tsOverflow ⟨_, clock_high_lt clock⟩).1
  refine ⟨_, [UInt8.ofNat (clock.ts / 2 ^ 8 % 2 ^ 8), UInt8.ofNat (clock.ts % 2 ^ 8), flags], rfl,
    hst, ?_, fun p => clockBytes_withHeader p clock false toggle [flags], rfl⟩
  rw [headerLength, if_pos hst]
  rfl

theorem InStep.status {trigger : CaptureTrigger} {toggle : Bool} {seen : List Frame}
    {p : Packet UInt8} (h : InStep trigger toggle seen p) (hfew : seen.countP Frame.tsOverflow < 2 ^ 37)
    (clock : FrameClock) (flags : UInt8) :
    InStep trigger (!toggle) (seen ++ [.status clock flags])
      (p.feed ((Frame.status clock flags).encode toggle)) := by
  obtain ⟨b, bs, hencode, hst, hlen, hbytes, hthird⟩ := status_bytes toggle clock flags
  obtain ⟨hc, hstatus, hdata⟩ := h.clocked (f := .status clock flags) hfew (hbytes p)
  have hflags := byteAt_stored hdata hthird
  rw [hst] at hstatus
  have hdone : p.feed ((Frame.status clock flags).encode toggle) =
      (p.withHeader b bs).headerCommon.statusHeader := by
    rw [hencode, feed_header h.plain.running h.header h.dataPtr b bs hlen, headerDone,
      if_pos hstatus]
  -- from here on `r` is the packet with the header taken over
  generalize (p.withHeader b bs).headerCommon = r at hc hflags hdone
  have hch := chatter_statusEvent hc.plain (r.byteAt 3 &&& 0x0f).toNat (flag (r.byteAt 3) 0x10)
    (flag (r.byteAt 3) 0x20) (speedField (r.byteAt 3))
  have hgate := gateState_statusEvent r (r.byteAt 3 &&& 0x0f).toNat (flag (r.byteAt 3) 0x10)
    (flag (r.byteAt 3) 0x20) (speedField (r.byteAt 3))
  have hplain := hch.plain hc.plain
  rw [hdone]
  refine ⟨hplain.congr rfl, ?_, rfl, ?_, ?_, ?_, ?_, ?_, ?_⟩
  · exact (congrArg Assembler.header hch.assembler_eq).trans hc.header
  · exact (congrArg Assembler.toggle hch.assembler_eq).trans hc.toggle_eq
  · exact (congrArg (fun a => UInt64.toNat (Assembler.tsInt a)) hch.assembler_eq).trans hc.tsInt
  · exact hch.trigger.trans hc.trigger_eq
  · have hin : r.captureTriggerInput = inputOf seen := congrArg Prod.fst hc.gate_eq
    have hen : r.captureEnabled = gateOpen trigger seen := congrArg Prod.snd hc.gate_eq
    have hinput : inputOf (seen ++ [.status clock flags]) =
        ((flags &&& 0x20 != 0).toNat : Int) := by
      rw [inputOf, triggerBits_status, List.getLast?_concat]
    have hbit : (flag (r.byteAt 3) 0x20 : Int) = ((flags &&& 0x20 != 0).toNat : Int) := by
      rw [hflags, flag_eq_bit]
    refine hgate.trans ?_
    rw [hin, hen, hc.trigger_eq, hbit, hinput, gate_concat trigger (triggerBits seen) _ seen _ rfl
      (triggerBits_status seen clock flags)]
  · rw [packetsOf_concat, packetOf, List.append_nil]
    exact hch.packets.trans hc.packets
  · exact hch.quiet hc.quiet

/-! ## Data frames, behind their header -/

/-- The header bytes of a data frame. -/
theorem data_bytes (toggle : Bool) (clock : FrameClock) (flags : UInt8) (duration : UInt16)
    (payload : List UInt8) (hle : payload.length ≤ maxDataSize - dataHeaderSize) :
    ∃ b bs, (Frame.data clock flags duration payload hle).encode toggle = (b :: bs) ++ payload ∧
      startsStatus b = false ∧ bs.length + 1 = headerLength b ∧
      (∀ p : Packet UInt8, ClockBytes (p.withHeader b bs) clock true toggle) ∧
      (∀ (r : Packet UInt8) data, r.captureData = storeBytes data 0 (b :: bs) →
        r.headerSize = dataHeaderSize + payload.length) := by
  have hle' : payload.length ≤ 1273 := hle
  have hst : startsStatus (headByte true toggle clock.tsOverflow (clock.ts / 2 ^ 16)) =
      false := (headByte_bits true toggle clock.tsOverflow ⟨_, clock_high_lt clock⟩).1
  refine ⟨_, [UInt8.ofNat (clock.ts / 2 ^ 8 % 2 ^ 8), UInt8.ofNat (clock.ts % 2 ^ 8),
      sizeByte flags ((dataHeaderSize + payload.length) / 2 ^ 8),
      UInt8.ofNat ((dataHeaderSize + payload.length) % 2 ^ 8), (duration >>> 8).toUInt8,
      duration.toUInt8], rfl, hst, ?_,
    fun p => clockBytes_withHeader p clock true toggle _, fun r data hdata => ?_⟩
  · rw [headerLength, if_neg (Bool.eq_false_iff.mp hst)]
    rfl
  · have hhigh := byteAt_stored (i := 3) hdata rfl
    have hlow := byteAt_stored (i := 4) hdata rfl
    have h3 := sizeByte_high flags ⟨(dataHeaderSize + payload.length) / 2 ^ 8, by
      show (7 + payload.length) / 2 ^ 8 < 8
      omega⟩
    rw [headerSize, hhigh, hlow, h3, UInt8.toNat_ofNat']
    show (7 + payload.length) / 2 ^ 8 * 256 + (7 + payload.length) % 2 ^ 8 % 2 ^ 8 = 7 + payload.length
    omega

/-- The packet behind the header of a data frame. -/
theorem InStep.dataHeader {trigger : CaptureTrigger} {toggle : Bool} {seen : List Frame}
    {p : Packet UInt8} (h : InStep trigger toggle seen p) (hfew : seen.countP Frame.tsOverflow < 2 ^ 37)
    (clock : FrameClock) (flags : UInt8) (duration : UInt16) (payload : List UInt8)
    (hle : payload.length ≤ maxDataSize - dataHeaderSize) :
    ∃ r, Clocked trigger toggle seen (.data clock flags duration payload hle) r ∧
      r.headerSize = dataHeaderSize + payload.length ∧
      p.feed ((Frame.data clock flags duration payload hle).encode toggle) =
        r.startPayload.feed payload := by
  obtain ⟨b, bs, hencode, hst, hlen, hbytes, hsize⟩ :=
    data_bytes toggle clock flags duration payload hle
  obtain ⟨hc, hstatus, hdata⟩ :=
    h.clocked (f := .data clock flags duration payload hle) hfew (hbytes p)
  rw [hst] at hstatus
  have hcommonSize := hsize _ _ hdata
  -- the size is legal, so the payload follows
  have hlegal : ¬ (dataHeaderSize + payload.length < dataHeaderSize ∨
      dataHeaderSize + payload.length > maxDataSize) := by
    have hle' : payload.length ≤ 1273 := hle
    show ¬ (7 + payload.length < 7 ∨ 7 + payload.length > 1280)
    omega
  refine ⟨_, hc, hcommonSize, ?_⟩
  rw [hencode, feed_append, feed_header h.plain.running h.header h.dataPtr b bs hlen, headerDone,
    if_neg (Bool.eq_false_iff.mp hstatus), Packet.dataHeader, hcommonSize, if_neg hlegal]

theorem inputOf_data (seen : List Frame) (clock : FrameClock) (flags : UInt8) (duration : UInt16)
    (payload : List UInt8) (h) (trigger : CaptureTrigger) :
    inputOf (seen ++ [.data clock flags duration payload h]) = inputOf seen ∧
      gateOpen trigger (seen ++ [.data clock flags duration payload h]) =
        gateOpen trigger seen := by
  constructor
  · rw [inputOf, inputOf, triggerBits_data]
  · cases trigger <;> simp only [gateOpen, triggerBits_data]

/-- A packet back at the frame boundary behind a data frame. -/
theorem Clocked.inStep {trigger : CaptureTrigger} {toggle : Bool} {seen : List Frame}
    {clock : FrameClock} {flags : UInt8} {duration : UInt16} {payload : List UInt8}
    {hle : payload.length ≤ maxDataSize - dataHeaderSize} {p : Packet UInt8}
    (h : Clocked trigger toggle seen (.data clock flags duration payload hle) p)
    (h0 : p.captureDataPtr = 0)
    (hnone : packetOf trigger seen (.data clock flags duration payload hle) = []) :
    InStep trigger (!toggle) (seen ++ [.data clock flags duration payload hle]) p where
  plain := h.plain
  header := h.header
  dataPtr := h0
  toggle_eq := h.toggle_eq
  tsInt := h.tsInt
  trigger_eq := h.trigger_eq
  gate_eq := by
    obtain ⟨hin, hen⟩ := inputOf_data seen clock flags duration payload hle trigger
    rw [hin, hen]
    exact h.gate_eq
  packets := by
    rw [packetsOf_concat, hnone, List.append_nil]
    exact h.packets
  quiet := h.quiet

/-- The payload of a frame with the gate open. -/
theorem Clocked.inStep_written {trigger : CaptureTrigger} {toggle : Bool} {seen : List Frame}
    {clock : FrameClock} {flags : UInt8} {duration : UInt16} {payload : List UInt8}
    {hle : payload.length ≤ maxDataSize - dataHeaderSize} {p : Packet UInt8}
    (h : Clocked trigger toggle seen (.data clock flags duration payload hle) p)
    (hone : packetOf trigger seen (.data clock flags duration payload hle) =
      [(p.captureTs.toNat, payload)]) :
    InStep trigger (!toggle) (seen ++ [.data clock flags duration payload hle])
      { limitDown (writePacket p p.captureTs payload) with captureDataPtr := 0 } where
  plain := by
    have hplain := (chatter_limitDown p).plain h.plain
    exact hplain.congr rfl
  header := h.header
  dataPtr := rfl
  toggle_eq := h.toggle_eq
  tsInt := h.tsInt
  trigger_eq := h.trigger_eq
  gate_eq := by
    obtain ⟨hin, hen⟩ := inputOf_data seen clock flags duration payload hle trigger
    rw [hin, hen]
    exact h.gate_eq
  packets := by
    rw [packetsOf_concat, hone, ← h.packets]
    exact List.filterMap_append
  quiet := by
    intro r hr
    rcases List.mem_append.mp hr with hr | hr
    · exact h.quiet r hr
    · rw [List.mem_singleton] at hr
      subst hr
      exact id

theorem InStep.data {trigger : CaptureTrigger} {toggle : Bool} {seen : List Frame}
    {p : Packet UInt8} (h : InStep trigger toggle seen p) (hfew : seen.countP Frame.tsOverflow < 2 ^ 37)
    (clock : FrameClock) (flags : UInt8) (duration : UInt16) (payload : List UInt8)
    (hle : payload.length ≤ maxDataSize - dataHeaderSize) :
    InStep trigger (!toggle) (seen ++ [.data clock flags duration payload hle])
      (p.feed ((Frame.data clock flags duration payload hle).encode toggle)) := by
  obtain ⟨r, hc, hsize, hfeed⟩ := h.dataHeader hfew clock flags duration payload hle
  have hlen : (r.headerSize : Int) - dataHeaderSize = payload.length := by rw [hsize]; omega
  rw [hfeed]
  by_cases hnil : payload = []
  · -- an empty payload: the next header follows at once
    have hhead : r.startPayload.captureHeader = true := by
      show decide ((r.headerSize : Int) - dataHeaderSize = 0) = true
      rw [hlen, hnil]
      rfl
    have hc' : Clocked trigger toggle seen (.data clock flags duration payload hle)
        r.startPayload :=
      ⟨hc.plain.congr rfl, hhead, hc.toggle_eq, hc.tsInt, hc.ts, hc.trigger_eq, hc.gate_eq,
        hc.packets, hc.quiet⟩
    rw [show r.startPayload.feed payload = r.startPayload by rw [hnil, feed_nil]]
    exact hc'.inStep rfl (by rw [packetOf, if_neg (fun hg => hg.1 hnil)])
  · have hhead : r.startPayload.captureHeader = false := by
      show decide ((r.headerSize : Int) - dataHeaderSize = 0) = false
      rw [hlen, decide_eq_false_iff_not, Nat.cast_eq_zero, List.length_eq_zero_iff]
      exact hnil
    rw [feed_payload (p := r.startPayload) hc.plain.running hhead rfl hnil hlen.symm, payloadDone]
    -- `s` is the packet `data_event` sees
    generalize hs : { r.startPayload with
      captureData := storeBytes r.startPayload.captureData 0 payload
      captureDataPtr := payload.length
      captureHeader := true } = s
    have hcs : Clocked trigger toggle seen (.data clock flags duration payload hle) s := by
      subst hs
      exact ⟨hc.plain.congr rfl, rfl, hc.toggle_eq, hc.tsInt, hc.ts, hc.trigger_eq, hc.gate_eq,
        hc.packets, hc.quiet⟩
    have hpay : s.payload = payload := by
      have hdata : s.captureData = storeBytes r.startPayload.captureData 0 payload := by rw [← hs]
      have hssize : s.captureSize = payload.length := by rw [← hs]; exact hlen
      rw [Packet.payload, hssize, Int.toNat_natCast, dataBytes_storeBytes hdata]
    have hgate : s.captureEnabled = gateOpen trigger seen := congrArg Prod.snd hcs.gate_eq
    by_cases hopen : s.captureEnabled = true
    · obtain ⟨q, hq, hqg, he⟩ := dataEvent_of_plain hcs.plain hopen
      have hts : q.captureTs = s.captureTs := congrArg Assembler.ts hq.assembler_eq
      have hcq := hq.clocked hqg hcs
      rw [he, hpay, ← hts]
      refine hcq.inStep_written ?_
      rw [packetOf, if_pos ⟨hnil, hgate ▸ hopen⟩, hcq.ts]
    · have he : s.dataEvent = s := by rw [dataEvent, if_pos (by simpa using hopen)]
      rw [he]
      have hcs' : Clocked trigger toggle seen (.data clock flags duration payload hle)
          { s with captureDataPtr := 0 } :=
        ⟨hcs.plain.congr rfl, hcs.header, hcs.toggle_eq, hcs.tsInt, hcs.ts, hcs.trigger_eq,
          hcs.gate_eq, hcs.packets, hcs.quiet⟩
      exact hcs'.inStep rfl (by rw [packetOf, if_neg (fun hg => hopen (hgate ▸ hg.2))])

/-! ## Runs -/

theorem InStep.frame {trigger : CaptureTrigger} {toggle : Bool} {seen : List Frame}
    {p : Packet UInt8} (h : InStep trigger toggle seen p) (hfew : seen.countP Frame.tsOverflow < 2 ^ 37)
    (f : Frame) : InStep trigger (!toggle) (seen ++ [f]) (p.feed (f.encode toggle)) := by
  cases f with
  | status clock flags => exact h.status hfew clock flags
  | data clock flags duration payload hle => exact h.data hfew clock flags duration payload hle

theorem InStep.frames (fs : List Frame) {trigger : CaptureTrigger} {toggle : Bool}
    {seen : List Frame} {p : Packet UInt8} (h : InStep trigger toggle seen p)
    (hfew : (seen ++ fs).countP Frame.tsOverflow < 2 ^ 37) :
    ∃ toggle', InStep trigger toggle' (seen ++ fs) (p.feed (encodeFrames toggle fs)) := by
  induction fs generalizing toggle seen p with
  | nil =>
      rw [List.append_nil, encodeFrames, feed_nil]
      exact ⟨toggle, h⟩
  | cons f fs ih =>
      have hseen : seen.countP Frame.tsOverflow < 2 ^ 37 := by
        rw [List.countP_append] at hfew
        omega
      rw [encodeFrames, feed_append]
      rw [← List.singleton_append, ← List.append_assoc] at hfew ⊢
      exact ih (h.frame hseen f) hfew

theorem inStep_announce {opts : PacketOpts} (hf : opts.foldEmpty = false)
    (hl : opts.captureLimit ≤ 0) :
    InStep opts.captureTrigger false [] (announce (new opts)) := by
  have hquiet : ∀ m ts, Quiet m → ∀ r ∈ (captureInfo (new opts : Packet UInt8) ts m).out,
      ¬ r.IsError := by
    intro m ts hm
    exact (chatter_captureInfo hm (new opts) ts).quiet (by simp [new])
  rw [announce]
  by_cases ht : (new opts : Packet UInt8).opts.captureTrigger = .disabled
  · have ht' : opts.captureTrigger = .disabled := ht
    rw [if_pos ht, ht']
    refine ⟨⟨hf, rfl, rfl, hl, rfl⟩, rfl, rfl, rfl, rfl, ht, rfl, rfl, ?_⟩
    exact hquiet .startingCapture 0 trivial
  · rw [if_neg ht]
    refine ⟨⟨hf, rfl, rfl, hl, rfl⟩, rfl, rfl, rfl, rfl, rfl, ?_, rfl, ?_⟩
    · have hclosed : gateOpen opts.captureTrigger [] = false := by
        cases h : opts.captureTrigger with
        | disabled => exact absurd h ht
        | low => rfl
        | high => rfl
        | falling => rfl
        | rising => rfl
      rw [hclosed]
      rfl
    · exact hquiet .waitingForTrigger 0 trivial

/-- **The frame layer shows exactly the frames**: any fewer than `2 ^ 31`
well-formed frames, fed in any chunks with folding off and no limit, give
no error record, and the packets of the output are the non-empty payloads
received while the gate was open, in order, with their times. -/
theorem feed_frames (opts : PacketOpts) (hf : opts.foldEmpty = false)
    (hl : opts.captureLimit ≤ 0) (fs : List Frame) (hfew : fs.length < 2 ^ 31)
    (chunks : List (List UInt8)) (hchunks : chunks.flatten = encodeFrames false fs) :
    (∀ r ∈ (chunks.foldl feed (announce (new opts))).out, ¬ r.IsError) ∧
      (chunks.foldl feed (announce (new opts))).out.filterMap Record.packet =
        packetsOf opts.captureTrigger fs := by
  have hturns : fs.countP Frame.tsOverflow < 2 ^ 37 :=
    calc fs.countP Frame.tsOverflow ≤ fs.length := List.countP_le_length
      _ < 2 ^ 31 := hfew
      _ < 2 ^ 37 := by norm_num
  obtain ⟨toggle, h⟩ := (inStep_announce hf hl).frames fs hturns
  rw [feed_flatten, hchunks]
  exact ⟨h.quiet, h.packets⟩

def risingOpts : PacketOpts := { foldOpts with foldEmpty := false, captureTrigger := .rising }

/-- A packet before the rising edge, the edge with a timestamp overflow,
a packet with a CRC error and an empty one. -/
def risingFrames : List Frame :=
  [.status ⟨false, 10, by decide⟩ 0x00, .data ⟨false, 20, by decide⟩ 0 0 [0x2d] (by decide),
    .status ⟨true, 5, by decide⟩ 0x20, .data ⟨false, 70000, by decide⟩ 0x10 9 [0x69, 1] (by decide),
    .data ⟨false, 70001, by decide⟩ 0 0 [] (by decide)]

theorem feed_frames_risingFrames :
    packetsOf .rising risingFrames = [(18642933, [0x69, 1])] ∧
      (∀ r ∈ ([(encodeFrames false risingFrames).take 9,
          (encodeFrames false risingFrames).drop 9].foldl feed (announce (new risingOpts))).out,
        ¬ r.IsError) ∧
      ([(encodeFrames false risingFrames).take 9,
          (encodeFrames false risingFrames).drop 9].foldl feed
        (announce (new risingOpts))).out.filterMap Record.packet =
          packetsOf .rising risingFrames :=
  ⟨by decide, feed_frames risingOpts rfl (by decide) risingFrames (by decide) _ (by decide)⟩

end Packet

end UsbSniffer
