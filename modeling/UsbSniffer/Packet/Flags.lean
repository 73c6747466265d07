import UsbSniffer.Packet.Boundary
import UsbSniffer.Packet.Folding
import UsbSniffer.Packet.Provenance

/-!
# What becomes of the error flags

A data frame may say that the hardware lost data (overflow), that its CRC
was wrong, or that the PHY reported an error. `capture_sm` keeps the
flags and leaves them to `data_event`, which writes a record for two of
them and decides with all three whether the packet may be folded.
`reported_iff` says for which frames this works: `data_event` is not
reached for an empty payload, and the overflow flag alone does not keep a
SOF out of the fold buffer.

That a payload is written, and not another packet with the same bytes, is
said with marked bytes: the capture runs on bytes that carry a mark, and
only the bytes of one frame have it set.
-/

namespace UsbSniffer

/-- A byte of a data frame's flags is set. -/
def Frame.flagged (mask : UInt8) : Frame → Bool
  | .status _ _ => false
  | .data _ flags _ _ _ => flags &&& mask != 0

def Frame.payload : Frame → List UInt8
  | .status _ _ => []
  | .data _ _ _ payload _ => payload

instance : ByteLike (UInt8 × Bool) := ⟨Prod.fst, (0, false)⟩

namespace Packet

section Adds

variable {β : Type}

theorem adds_captureInfo (p : Packet β) (ts : UInt64) (m : Msg) :
    Adds p (captureInfo p ts m) (.info ts m) := by
  rw [captureInfo_eq]
  refine ⟨_, rfl, ?_⟩
  rw [List.map_append]
  exact List.mem_append_right _ List.mem_cons_self

theorem adds_writePacket (p : Packet β) (ts : UInt64) (data : List β) :
    Adds p (writePacket p ts data) (.epb ts data) := ⟨_, rfl, List.mem_cons_self⟩

/-- Text records of one kind add no text of another. -/
theorem not_adds_info {P : Msg → Prop} {p p' : Packet β} {w : List (UInt64 × Msg)}
    (ho : p'.out = p.out ++ w.map infoRecord) (hw : ∀ r ∈ w, P r.2) {ts : UInt64} {m : Msg}
    (hm : ¬ P m) : ¬ Adds p p' (.info ts m) := by
  rintro ⟨w', ho', hr⟩
  rw [ho', List.append_cancel_left_eq] at ho
  rw [ho] at hr
  obtain ⟨x, hx, he⟩ := List.mem_map.mp hr
  have hmsg : x.2 = m := (Record.info.inj he).2
  exact hm (hmsg ▸ hw x hx)

theorem Emitted.overflow {p p' : Packet β} (h : Emitted p p') :
    p'.captureOverflow = p.captureOverflow := congrArg Assembler.overflow h.assembler_eq

theorem Emitted.dataError {p p' : Packet β} (h : Emitted p p') :
    p'.captureDataError = p.captureDataError := congrArg Assembler.dataError h.assembler_eq

/-- The flush leaves nothing held behind an overflow. -/
theorem dataPrepare_foldBuf {p : Packet β} (hover : p.captureOverflow = true) :
    p.dataPrepare.captureFoldBuf = [] := by
  have hbreaks : p.frameEvent.breaks p.captureFoldBuf.length = true := by
    rw [frameEvent, hover]
    rfl
  have hflush := ledger_dataPrepare p
  rw [if_pos hbreaks] at hflush
  exact List.map_eq_nil_iff.mp (congrArg Ledger.buffer hflush)

end Adds

/-! ## The flags in `data_event` -/

section Event

variable {β : Type} [ByteLike β]

theorem dataEvent_of_enabled {p : Packet β} (he : p.captureEnabled = true) :
    p.dataEvent = checkCaptureLimit (dataWrite (dataPrepare p)) := by
  rw [dataEvent, if_neg (by simp [he])]

/-- **The overflow flag is reported.** -/
theorem dataEvent_overflow {p : Packet β} (he : p.captureEnabled = true)
    (hover : p.captureOverflow = true) :
    ∃ ts, Adds p p.dataEvent (.info ts .hardwareOverflow) := by
  have hem := (emitted_lineStateEvent p).trans (emitted_dataFlush _)
  have hover' : p.lineStateEvent.dataFlush.captureOverflow = true := hem.overflow.trans hover
  refine ⟨p.lineStateEvent.dataFlush.captureTs, ?_⟩
  have hadd : Adds p p.dataPrepare
      (.info p.lineStateEvent.dataFlush.captureTs .hardwareOverflow) := by
    refine Adds.after ((Writes.line p).trans (writes_dataFlush _)).grows
      (Adds.then ?_ (writes_notePhyError _).grows)
    rw [noteOverflow, if_pos hover']
    exact adds_captureInfo _ _ _
  rw [dataEvent_of_enabled he]
  exact (hadd.then (writes_dataWrite _).grows).then (writes_checkCaptureLimit _).grows

/-- **The data-error flag is reported.** -/
theorem dataEvent_phyError {p : Packet β} (he : p.captureEnabled = true)
    (hphy : p.captureDataError = true) : ∃ ts, Adds p p.dataEvent (.info ts .phyError) := by
  have hem := ((emitted_lineStateEvent p).trans (emitted_dataFlush _)).trans
    (emitted_noteOverflow _)
  have hphy' : p.lineStateEvent.dataFlush.noteOverflow.captureDataError = true :=
    hem.dataError.trans hphy
  have hover : Writes p p.lineStateEvent.dataFlush.noteOverflow :=
    ((Writes.line p).trans (writes_dataFlush _)).trans (writes_noteOverflow _)
  refine ⟨p.lineStateEvent.dataFlush.noteOverflow.captureTs, ?_⟩
  have hadd : Adds p p.dataPrepare
      (.info p.lineStateEvent.dataFlush.noteOverflow.captureTs .phyError) := by
    refine Adds.after hover.grows ?_
    rw [dataPrepare, notePhyError, if_pos hphy']
    exact adds_captureInfo _ _ _
  rw [dataEvent_of_enabled he]
  exact (hadd.then (writes_dataWrite _).grows).then (writes_checkCaptureLimit _).grows

theorem dataPrepare_frame (p : Packet β) :
    p.dataPrepare.frameError = p.frameError ∧ p.dataPrepare.opts.foldEmpty = p.opts.foldEmpty ∧
      p.dataPrepare.framePid = p.framePid ∧ p.dataPrepare.allowSof = p.allowSof ∧
      p.dataPrepare.payload = p.payload := by
  have hem := emitted_dataPrepare p
  refine ⟨?_, hem.foldEmpty, ?_, ?_, ?_⟩
  · rw [frameError, frameError, hem.dataError]
    exact congrArg (fun a => Assembler.crcError a || p.captureDataError) hem.assembler_eq
  · rw [framePid, framePid, hem.data]
  · rw [allowSof, allowSof, hem.effectiveSpeed]
  · rw [payload, payload, hem.size, hem.dataBytes]

/-- **A flagged packet is written at once**, unless it is a SOF with the
overflow flag alone. -/
theorem dataEvent_written {p : Packet β} (he : p.captureEnabled = true)
    (hflag : p.frameError = true ∨ p.captureOverflow = true ∧
      (p.opts.foldEmpty = true → ¬(p.framePid = pidSof ∧ p.allowSof = true))) :
    ∃ ts, Adds p p.dataEvent (.epb ts p.payload) := by
  obtain ⟨herr, hfold, hpid, hallow, hpay⟩ := dataPrepare_frame p
  refine ⟨p.dataPrepare.captureTs, ?_⟩
  have hwrite : p.dataPrepare.dataWrite =
      writePacket p.dataPrepare p.dataPrepare.captureTs p.payload := by
    rw [dataWrite, herr, hfold, hpay]
    by_cases hnow : (p.frameError || !p.opts.foldEmpty) = true
    · rw [if_pos hnow]
    · rw [if_neg hnow]
      simp only [Bool.or_eq_true, Bool.not_eq_true', not_or] at hnow
      obtain ⟨hover, hsof⟩ := hflag.resolve_left hnow.1
      have hnot := hsof (by simpa using hnow.2)
      rw [dataPrepare_foldBuf hover, if_neg (by simp), hpid, hallow, if_neg hnot]
  rw [dataEvent_of_enabled he, hwrite]
  exact (Adds.after (writes_dataPrepare p).grows (adds_writePacket _ _ _)).then
    (writes_checkCaptureLimit _).grows

/-- **A SOF with the overflow flag alone is not written**: it is held. -/
theorem dataEvent_held {p : Packet β} (he : p.captureEnabled = true)
    (hfold : p.opts.foldEmpty = true) (herr : p.frameError = false)
    (hover : p.captureOverflow = true)
    (hsof : p.framePid = pidSof ∧ p.allowSof = true) {Q : List β → Prop} (hq : Stored Q p)
    {ts : UInt64} {data : List β} (hmem : .epb ts data ∈ p.dataEvent.out) : Q data := by
  obtain ⟨herr', hfold', hpid, hallow, hpay⟩ := dataPrepare_frame p
  have hwrite : p.dataPrepare.dataWrite =
      foldPacket p.dataPrepare p.dataPrepare.captureTs p.payload := by
    rw [dataWrite, herr', hfold', hpay, herr, hfold, if_neg (by simp), dataPrepare_foldBuf hover,
      if_neg (by simp), hpid, hallow, if_pos hsof]
  rw [dataEvent_of_enabled he, hwrite] at hmem
  -- holding the packet writes nothing, and the limit a text at most
  have hlimit : ∀ q : Packet β, .epb ts data ∈ q.checkCaptureLimit.out → .epb ts data ∈ q.out := by
    intro q hq
    rw [checkCaptureLimit, captureInfo_eq] at hq
    split at hq
    · rcases List.mem_append.mp hq with hq | hq
      · exact hq
      · obtain ⟨x, -, hx⟩ := List.mem_map.mp hq
        cases hx
    · exact hq
  exact hq.dataPrepare.written ts data 
    (hlimit (foldPacket p.dataPrepare p.dataPrepare.captureTs p.payload) hmem)

/-- The output only grows. -/
theorem feed_mem {p : Packet β} {r : Record β} (hr : r ∈ p.out) (data : List β) :
    r ∈ (p.feed data).out :=
  feed_induction (I := fun q => r ∈ q.out) (fun q b _ _ hq => (wrote_captureSm q b).mem hq) hr

end Event

/-! ## Captures of frames -/

/-- The capture of the frames `fs`. -/
def framesRun (opts : PacketOpts) (fs : List Frame) : Packet UInt8 :=
  (announce (new opts)).feed (encodeFrames false fs)

/-- Bytes with a mark. -/
def mark (m : Bool) (bs : List UInt8) : List (UInt8 × Bool) := bs.map fun b => (b, m)

/-- The capture of `pre`, `f` and `post`, where the bytes of `f` alone are
marked. -/
def markedRun (opts : PacketOpts) (pre : List Frame) (f : Frame) (post : List Frame) :
    Packet (UInt8 × Bool) :=
  (((announce (new opts)).feed (mark false (encodeFrames false pre))).feed
    (mark true (f.encode (toggleAfter false pre)))).feed
      (mark false (encodeFrames (!toggleAfter false pre) post))

theorem framesRun_concat (opts : PacketOpts) (pre : List Frame) (f : Frame) :
    framesRun opts (pre ++ [f]) =
      (framesRun opts pre).feed (f.encode (toggleAfter false pre)) := by
  rw [framesRun, framesRun, encodeFrames_append, feed_append, encodeFrames, encodeFrames,
    List.append_nil]

theorem unmark_mark (m : Bool) (bs : List UInt8) : (mark m bs).map Prod.fst = bs := by
  rw [mark, List.map_map]
  exact List.map_id bs

/-- Without its marks, a marked capture is the capture. -/
theorem markedRun_unmark (opts : PacketOpts) (pre : List Frame) (f : Frame)
    (post : List Frame) :
    (markedRun opts pre f post).map Prod.fst = framesRun opts (pre ++ f :: post) := by
  rw [markedRun, map_feed Prod.fst _ fun _ => rfl, map_feed Prod.fst _ fun _ => rfl,
    map_feed Prod.fst _ fun _ => rfl, map_announce, map_new Prod.fst rfl, unmark_mark, unmark_mark,
    unmark_mark, framesRun, encodeFrames_append, feed_append, encodeFrames, feed_append]

/-- Before the marked frame nothing is marked. -/
theorem unmarked_feed (opts : PacketOpts) (pre : List Frame) :
    (announce (new opts)).feed (mark false (encodeFrames false pre)) =
      (framesRun opts pre).map fun b => (b, false) := by
  rw [framesRun, map_feed (fun b : UInt8 => (b, false)) _ fun _ => rfl, map_announce,
    map_new (fun b : UInt8 => (b, false)) rfl]
  rfl

theorem spells_mark (toggle m : Bool) (f : Frame) : Spells toggle f (mark m (f.encode toggle)) :=
  unmark_mark m _

theorem drop_encode (toggle : Bool) (f : Frame) (hdata : f.payload ≠ []) :
    (f.encode toggle).drop dataHeaderSize = f.payload := by
  cases f with
  | status clock flags => exact absurd rfl hdata
  | data clock flags duration payload hle => rfl

/-! ## The claim of the flags -/

/-- What the flags of the frame `f` behind `pre` should bring. -/
structure Reported (opts : PacketOpts) (pre : List Frame) (f : Frame) : Prop where
  overflow : f.flagged 0x08 = true → ∃ ts,
    Adds (framesRun opts pre) (framesRun opts (pre ++ [f])) (.info ts .hardwareOverflow)
  phyError : f.flagged 0x20 = true → ∃ ts,
    Adds (framesRun opts pre) (framesRun opts (pre ++ [f])) (.info ts .phyError)
  written : f.payload ≠ [] →
    f.flagged 0x08 = true ∨ f.flagged 0x10 = true ∨ f.flagged 0x20 = true →
      ∀ post, ∃ ts, .epb ts (mark true f.payload) ∈ (markedRun opts pre f post).out

/-- The frames whose flags are not acted on: those without a payload, and
a foldable SOF whose only flag is the overflow. -/
def Swallowed (p : Packet UInt8) (f : Frame) : Prop :=
  f.payload = [] ∧ (f.flagged 0x08 = true ∨ f.flagged 0x20 = true) ∨
    p.opts.foldEmpty = true ∧ p.allowSof = true ∧ f.payload.head? = some pidSof ∧
      f.flagged 0x08 = true ∧ f.flagged 0x10 = false ∧ f.flagged 0x20 = false

/-! ## One data frame -/

section Frames

variable {β : Type} {toggle : Bool} {p : Packet β} {flags : UInt8}

theorem Received.enabled {body : List β} {s : Packet β} (h : Received toggle flags body p s) :
    s.captureEnabled = p.captureEnabled := congrArg Bus.enabled h.bus

theorem Received.allowSof {body : List β} {s : Packet β} (h : Received toggle flags body p s) :
    s.allowSof = p.allowSof := by
  have hin : s.captureSpeedIn = p.captureSpeedIn := congrArg Bus.speedIn h.bus
  rw [Packet.allowSof, Packet.allowSof, effectiveSpeed, effectiveSpeed, hin, h.opts]

theorem Received.grows {body : List β} {s : Packet β} (h : Received toggle flags body p s) :
    p.out <+: s.out := by
  obtain ⟨w, ho, -⟩ := h.noted
  exact ⟨_, ho.symm⟩

theorem Received.stored {body : List β} {s : Packet β} (h : Received toggle flags body p s)
    {Q : List β → Prop} (hq : Stored Q p) : Stored Q s := by
  obtain ⟨w, ho, -⟩ := h.noted
  refine ⟨fun ts data hmem => ?_, ?_⟩
  · rw [ho] at hmem
    rcases List.mem_append.mp hmem with hmem | hmem
    · exact hq.written ts data hmem
    · obtain ⟨x, -, hx⟩ := List.mem_map.mp hmem
      cases hx
  · rw [h.foldBuf]
    exact hq.folded

/-- What `frameError` says of the flags. -/
theorem Received.frameError {body : List β} {s : Packet β} (h : Received toggle flags body p s) :
    s.frameError = (flags &&& 0x10 != 0 || flags &&& 0x20 != 0) := by
  rw [Packet.frameError, h.crcError, h.dataError]

variable [ByteLike β] {clock : FrameClock} {duration : UInt16} {payload : List UInt8}
  {hle : payload.length ≤ maxDataSize - dataHeaderSize} {bs : List β}

/-- The PID of a frame with a payload. -/
theorem Received.framePid {body : List β} {s : Packet β} (h : Received toggle flags body p s)
    (hne : body ≠ []) : pidOf body = some s.framePid := by
  rw [← h.payload]
  refine pidOf_payload ?_
  rw [h.size]
  exact Int.natCast_pos.mpr (List.length_pos_iff.mpr hne)

/-- Behind the boundary `p` the frame's payload reaches `data_event`. -/
theorem AtBoundary.event (h : AtBoundary toggle p) (hne : payload ≠ [])
    (hs : Spells toggle (.data clock flags duration payload hle) bs) :
    ∃ s, Received toggle flags (bs.drop dataHeaderSize) p s ∧
      (p.feed bs).out = s.dataEvent.out := by
  obtain ⟨s, hr, hfeed⟩ := h.feed_data hs
  rw [if_neg hne] at hfeed
  exact ⟨s, hr, by rw [hfeed]⟩

theorem AtBoundary.overflow (h : AtBoundary toggle p) (he : p.captureEnabled = true)
    (hne : payload ≠ []) (hs : Spells toggle (.data clock flags duration payload hle) bs)
    (hflag : (flags &&& 0x08 != 0) = true) :
    ∃ ts, Adds p (p.feed bs) (.info ts .hardwareOverflow) := by
  obtain ⟨s, hr, hout⟩ := h.event hne hs
  obtain ⟨ts, hadd⟩ := dataEvent_overflow (hr.enabled.trans he) (hr.overflow.trans hflag)
  exact ⟨ts, (Adds.after hr.grows hadd).of_out hout⟩

theorem AtBoundary.phyError (h : AtBoundary toggle p) (he : p.captureEnabled = true)
    (hne : payload ≠ []) (hs : Spells toggle (.data clock flags duration payload hle) bs)
    (hflag : (flags &&& 0x20 != 0) = true) :
    ∃ ts, Adds p (p.feed bs) (.info ts .phyError) := by
  obtain ⟨s, hr, hout⟩ := h.event hne hs
  obtain ⟨ts, hadd⟩ := dataEvent_phyError (hr.enabled.trans he) (hr.dataError.trans hflag)
  exact ⟨ts, (Adds.after hr.grows hadd).of_out hout⟩

/-- A header without a payload brings no text about errors. -/
theorem AtBoundary.silent (h : AtBoundary toggle p) (hnil : payload = [])
    (hs : Spells toggle (.data clock flags duration payload hle) bs) {ts : UInt64} {m : Msg}
    (hm : ¬ Ticks m) : ¬ Adds p (p.feed bs) (.info ts m) := by
  obtain ⟨s, hr, hfeed⟩ := h.feed_data hs
  obtain ⟨w, ho, hw⟩ := hr.noted
  rw [if_pos hnil] at hfeed
  rw [hfeed]
  refine not_adds_info ?_ hw hm
  exact ho

/-- The packet is a SOF that may be folded, and the overflow is its only
flag. -/
def Foldable (p : Packet β) (flags : UInt8) (body : List β) : Prop :=
  p.opts.foldEmpty = true ∧ p.allowSof = true ∧ pidOf body = some pidSof ∧
    (flags &&& 0x08 != 0) = true ∧ (flags &&& 0x10 != 0) = false ∧ (flags &&& 0x20 != 0) = false

theorem AtBoundary.written (h : AtBoundary toggle p) (he : p.captureEnabled = true)
    (hne : payload ≠ []) (hs : Spells toggle (.data clock flags duration payload hle) bs)
    (hbody : bs.drop dataHeaderSize ≠ [])
    (hflag : (flags &&& 0x08 != 0) = true ∨ (flags &&& 0x10 != 0) = true ∨
      (flags &&& 0x20 != 0) = true)
    (hnot : ¬ Foldable p flags (bs.drop dataHeaderSize)) :
    ∃ ts, Adds p (p.feed bs) (.epb ts (bs.drop dataHeaderSize)) := by
  obtain ⟨s, hr, hout⟩ := h.event hne hs
  have hcase : s.frameError = true ∨ s.captureOverflow = true ∧
      (s.opts.foldEmpty = true → ¬(s.framePid = pidSof ∧ s.allowSof = true)) := by
    rw [hr.frameError, hr.overflow, Bool.or_eq_true]
    by_cases herr : (flags &&& 0x10 != 0) = true ∨ (flags &&& 0x20 != 0) = true
    · exact Or.inl herr
    · refine Or.inr ⟨hflag.resolve_right herr, ?_⟩
      rw [not_or, Bool.not_eq_true, Bool.not_eq_true] at herr
      rintro hf ⟨hpid, hallow⟩
      refine hnot ⟨hr.opts ▸ hf, hr.allowSof ▸ hallow, ?_, ?_, herr.1, herr.2⟩
      · rw [hr.framePid hbody, hpid]
      · exact hflag.resolve_right (by simp [herr.1, herr.2])
  obtain ⟨ts, hadd⟩ := dataEvent_written (hr.enabled.trans he) hcase
  rw [hr.payload] at hadd
  exact ⟨ts, (Adds.after hr.grows hadd).of_out hout⟩

theorem AtBoundary.held (h : AtBoundary toggle p) (he : p.captureEnabled = true)
    (hne : payload ≠ []) (hs : Spells toggle (.data clock flags duration payload hle) bs)
    (hbody : bs.drop dataHeaderSize ≠ []) (hfold : Foldable p flags (bs.drop dataHeaderSize))
    {Q : List β → Prop} (hq : Stored Q p) {ts : UInt64} {data : List β}
    (hmem : .epb ts data ∈ (p.feed bs).out) : Q data := by
  obtain ⟨s, hr, hout⟩ := h.event hne hs
  obtain ⟨hf, hallow, hpid, hover, hcrc, hphy⟩ := hfold
  rw [hr.framePid hbody] at hpid
  rw [hout] at hmem
  refine dataEvent_held (hr.enabled.trans he) (by rw [hr.opts]; exact hf) ?_
    (hr.overflow.trans hover) ⟨Option.some.inj hpid, hr.allowSof.trans hallow⟩ (hr.stored hq) hmem
  rw [hr.frameError, hcrc, hphy]
  rfl

end Frames

/-! ## Where the claim holds -/

theorem pidOf_mark (m : Bool) (bs : List UInt8) : pidOf (mark m bs) = bs.head? := by
  cases bs <;> rfl

theorem mark_ne_nil {m : Bool} {bs : List UInt8} (h : bs ≠ []) : mark m bs ≠ [] := by
  rw [mark]
  exact fun hnil => h (List.map_eq_nil_iff.mp hnil)

theorem drop_mark_encode (toggle m : Bool) {f : Frame} (hne : f.payload ≠ []) :
    (mark m (f.encode toggle)).drop dataHeaderSize = mark m f.payload := by
  rw [mark, ← List.map_drop, drop_encode toggle f hne]
  rfl

theorem framesRun_atBoundary {opts : PacketOpts} (hl : opts.captureLimit ≤ 0)
    (pre : List Frame) : AtBoundary (toggleAfter false pre) (framesRun opts pre) :=
  (atBoundary_announce hl).frames pre

/-- The marked capture, in front of the marked frame. -/
theorem marked_atBoundary {opts : PacketOpts} (hl : opts.captureLimit ≤ 0) (pre : List Frame) :
    AtBoundary (toggleAfter false pre)
      ((announce (new opts)).feed (mark false (encodeFrames false pre))) := by
  have h := framesRun_atBoundary hl pre
  rw [unmarked_feed]
  exact ⟨⟨h.unlimited.limit, h.unlimited.running⟩, h.header, h.dataPtr, h.toggle_eq⟩

/-- Nothing stored in front of the marked frame is marked. -/
theorem marked_stored (opts : PacketOpts) (pre : List Frame) :
    Stored (fun data => ∀ x ∈ data, x.2 = false)
      ((announce (new opts)).feed (mark false (encodeFrames false pre))) := by
  rw [unmarked_feed]
  refine ⟨fun ts data hmem x hx => ?_, fun c hc x hx => ?_⟩
  · obtain ⟨r, -, hr⟩ := List.mem_map.mp hmem
    cases r with
    | info ts' m => cases hr
    | epb ts' data' =>
        cases hr
        obtain ⟨b, -, rfl⟩ := List.mem_map.mp hx
        rfl
  · obtain ⟨c', -, rfl⟩ := List.mem_map.mp hc
    obtain ⟨b, -, rfl⟩ := List.mem_map.mp hx
    rfl

/-- **Flags are acted on exactly where the frame is not swallowed**: with
the gate open, behind any well-formed frames and under any options without
a limit, the records of the overflow and the data-error flag are written
and a flagged payload is written and never deleted, whatever follows, if
and only if the frame has a payload for these flags and is not a foldable
SOF whose only flag is the overflow. -/
theorem reported_iff (opts : PacketOpts) (hl : opts.captureLimit ≤ 0) (pre : List Frame)
    (f : Frame) (he : (framesRun opts pre).captureEnabled = true) :
    Reported opts pre f ↔ ¬ Swallowed (framesRun opts pre) f := by
  have hb := framesRun_atBoundary hl pre
  have hm := marked_atBoundary hl pre
  have hem : ((announce (new opts)).feed (mark false (encodeFrames false pre))).captureEnabled =
      true := by
    rw [unmarked_feed]
    exact he
  cases f with
  | status clock flags =>
      refine iff_of_true ⟨nofun, nofun, fun hne => absurd rfl hne⟩ ?_
      rintro (⟨-, h | h⟩ | ⟨-, -, h, -⟩) <;> cases h
  | data clock flags duration payload hle =>
      have hs := spells_encode (toggleAfter false pre) (.data clock flags duration payload hle)
      have hsm := spells_mark (toggleAfter false pre) true (.data clock flags duration payload hle)
      by_cases hnil : payload = []
      · -- a header alone: no record for any flag
        have hover : ¬ Ticks .hardwareOverflow := id
        have hphy : ¬ Ticks .phyError := id
        constructor
        · rintro hr (⟨-, h | h⟩ | ⟨-, -, h, -⟩)
          · obtain ⟨ts, hadd⟩ := hr.overflow h
            rw [framesRun_concat] at hadd
            exact hb.silent hnil hs hover hadd
          · obtain ⟨ts, hadd⟩ := hr.phyError h
            rw [framesRun_concat] at hadd
            exact hb.silent hnil hs hphy hadd
          · have hhead : payload.head? = some pidSof := h
            rw [hnil] at hhead
            cases hhead
        · intro hnot
          refine ⟨fun h => ?_, fun h => ?_, fun hne => absurd hnil hne⟩
          · exact absurd (Or.inl ⟨hnil, Or.inl h⟩) hnot
          · exact absurd (Or.inl ⟨hnil, Or.inr h⟩) hnot
      · have hdrop := drop_mark_encode (toggleAfter false pre) true
          (f := .data clock flags duration payload hle) hnil
        have hbody : (mark true ((Frame.data clock flags duration payload hle).encode
            (toggleAfter false pre))).drop dataHeaderSize ≠ [] := by
          rw [hdrop]
          exact mark_ne_nil hnil
        have hfoldable : Foldable ((announce (new opts)).feed
            (mark false (encodeFrames false pre))) flags (mark true payload) ↔
              Swallowed (framesRun opts pre) (.data clock flags duration payload hle) := by
          rw [Foldable, Swallowed, unmarked_feed, pidOf_mark]
          constructor
          · rintro ⟨h₁, h₂, h₃, h₄, h₅, h₆⟩
            exact Or.inr ⟨h₁, h₂, h₃, h₄, h₅, h₆⟩
          · rintro (⟨h, -⟩ | ⟨h₁, h₂, h₃, h₄, h₅, h₆⟩)
            · exact absurd h hnil
            · exact ⟨h₁, h₂, h₃, h₄, h₅, h₆⟩
        constructor
        · -- a swallowed SOF is held, so the marked payload is not in the output
          intro hr hsw
          have hfold := hfoldable.mpr hsw
          obtain ⟨h₁, h₂, h₃, h₄, h₅, h₆⟩ := hfold
          obtain ⟨ts, hmem⟩ := hr.written hnil (Or.inl h₄) []
          have hend : mark false [] = [] := rfl
          rw [markedRun, encodeFrames, hend, feed_nil] at hmem
          have hq := hm.held hem hnil hsm hbody (by rw [hdrop]; exact hfoldable.mpr hsw)
            (marked_stored opts pre) hmem
          cases payload with
          | nil => exact hnil rfl
          | cons b bs => exact absurd (hq (b, true) List.mem_cons_self) (by simp)
        · intro hnot
          refine ⟨fun h => ?_, fun h => ?_, fun _ hflag post => ?_⟩
          · rw [framesRun_concat]
            exact hb.overflow he hnil hs h
          · rw [framesRun_concat]
            exact hb.phyError he hnil hs h
          · obtain ⟨ts, hadd⟩ := hm.written hem hnil hsm hbody hflag
              (by rw [hdrop]; exact fun hf => hnot (hfoldable.mp hf))
            rw [hdrop] at hadd
            exact ⟨ts, feed_mem hadd.mem _⟩

/-- A SOF that lost data in front of it. -/
def overflowSof : Frame := .data ⟨false, 60, by decide⟩ 0x08 0 [0xa5, 1, 2] (by decide)

/-- The SOF after it. -/
def nextSof : Frame := .data ⟨false, 120, by decide⟩ 0 0 [0xa5, 2, 2] (by decide)

/-- The first one, with a CRC error as well. -/
def corruptSof : Frame := .data ⟨false, 60, by decide⟩ 0x18 0 [0xa5, 1, 2] (by decide)

theorem reported_iff_corruptSof :
    foldOpts.captureLimit ≤ 0 ∧ (framesRun foldOpts []).captureEnabled = true ∧
      (Reported foldOpts [] corruptSof ↔ ¬ Swallowed (framesRun foldOpts []) corruptSof) :=
  have hl : foldOpts.captureLimit ≤ 0 := by decide
  have he : (framesRun foldOpts []).captureEnabled = true := by decide +kernel
  ⟨hl, he, reported_iff foldOpts hl [] corruptSof he⟩

/-- The record is a packet with a marked byte. -/
def hasMark : Record (UInt8 × Bool) → Bool
  | .epb _ data => data.any Prod.snd
  | .info _ _ => false

/-- **A flagged packet can be deleted**: the SOF with the overflow flag
goes with its group when the next SOF comes. -/
theorem overflowSof_deleted : ¬ Reported foldOpts [] overflowSof := by
  intro h
  obtain ⟨ts, hmem⟩ := h.written (by decide) (Or.inl (by decide)) [nextSof]
  have hnone : (markedRun foldOpts [] overflowSof [nextSof]).out.all
      (fun r => !hasMark r) = true := by decide +kernel
  have hmark : hasMark (.epb ts (mark true overflowSof.payload)) = true := rfl
  have hno := List.all_eq_true.mp hnone _ hmem
  rw [hmark] at hno
  exact Bool.false_ne_true hno

-- it is not held any more either
example : (markedRun foldOpts [] overflowSof [nextSof]).captureFoldBuf.all
    (fun c => c.data.all fun b => !b.2) = true := by decide +kernel

end Packet

end UsbSniffer
