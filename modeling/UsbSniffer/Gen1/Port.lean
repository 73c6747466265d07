import UsbSniffer.Gen1.Capture
import UsbSniffer.Packet.Frames
import UsbSniffer.Packet.Timestamps
import UsbSniffer.Pcapng.Block

/-!
# The port of the gen1 engine

`packet.c` against `capture.c`, without folding. The two test times and
speeds differently, and one stops where the other exits; on frames as the
FPGA sends them none of it shows. `port_records` says so for whole
sessions.

The proof goes function by function: from a state the two share, a
function of `capture.c` gives what its port gives (`Shared` says what has
to hold of the state, `Agree` what "the same" means when one may exit).
-/

namespace UsbSniffer.Gen1

/-! ## Texts

`capture_info` of gen1 does not clamp the length of its text. It does not
have to: the texts are short. -/

/-- Both write this text. -/
def SameText (m : Msg) : Prop := text m = m.text

theorem sameText_of_length {m : Msg} (hm : m ≠ .desynchronization)
    (h : m.fullText.length ≤ 511) : SameText m := by
  have htake : m.fullText.toList.take 511 = m.fullText.toList := List.take_of_length_le h
  rw [SameText, Msg.text, htake, String.ofList_toList]
  cases m with
  | desynchronization => exact absurd rfl hm
  | _ => rfl

/-- A number below `10 ^ k` has at most `k` digits. -/
theorem repr_length_le {n k : Nat} (hk : 0 < k) (h : n < 10 ^ k) : (toString n).length ≤ k :=
  (Nat.length_repr_le_iff hk).mpr h

theorem divRoundEven_le (a b : Nat) : divRoundEven a b ≤ a + 1 := by
  have hq : a / b ≤ a := Nat.div_le_self a b
  have hmod : a / b % 2 ≤ 1 := by omega
  rw [divRoundEven]
  split
  · omega
  · split
    · omega
    · have : a / b % 2 ≤ 1 := hmod
      show a / b + a / b % 2 ≤ a + 1
      omega

/-- The exponents `nearestFloat` looks for are below 64. -/
theorem find_getD_lt (P : Nat → Bool) : ((List.range 64).find? P).getD 0 < 64 := by
  cases h : (List.range 64).find? P with
  | none => exact Nat.succ_pos 63
  | some k => exact List.mem_range.mp (List.mem_of_find?_eq_some h)

theorem nearestFloat_le (a b : Nat) : (nearestFloat a b).1 ≤ (a * 2 ^ 64 + 1) * 2 ^ 64 := by
  rw [nearestFloat]
  split
  · exact Nat.zero_le _
  · refine Nat.mul_le_mul ?_ (Nat.pow_le_pow_right Nat.two_pos (find_getD_lt _).le)
    refine (divRoundEven_le _ _).trans (Nat.succ_le_succ ?_)
    exact Nat.mul_le_mul_left a (Nat.pow_le_pow_right Nat.two_pos (find_getD_lt _).le)

/-- The `%.2f` of a duration, whatever its unit. -/
theorem fixed2_length {delta : Int} (h : delta.natAbs ≤ 2 ^ 31) (unit : Nat) :
    (fixed2 delta unit).length ≤ 70 := by
  have hv := nearestFloat_le delta.natAbs unit
  have hn := divRoundEven_le (100 * (nearestFloat delta.natAbs unit).1)
    (nearestFloat delta.natAbs unit).2
  generalize hN : divRoundEven (100 * (nearestFloat delta.natAbs unit).1)
    (nearestFloat delta.natAbs unit).2 = n at hn
  have hlt : n / 100 < 10 ^ 60 := by
    have hle : n / 100 ≤ n := Nat.div_le_self n 100
    omega
  have hwhole := repr_length_le (by norm_num) hlt
  have hfrac : (toString (n % 100)).length ≤ 2 :=
    repr_length_le (by norm_num) (Nat.mod_lt n (by norm_num))
  have hsign : (if delta < 0 then "-" else "").length ≤ 1 := by split <;> decide
  have hzero : (if n % 100 < 10 then "0" else "").length ≤ 1 := by split <;> decide
  rw [fixed2]
  simp only [hN, String.length_append]
  have hdot : ".".length = 1 := by decide
  omega

theorem durationText_length {delta : Int} (h : delta.natAbs ≤ 2 ^ 31) :
    (durationText delta).length ≤ 80 := by
  have hopen : " (".length = 2 := by decide
  have hns : " ns)".length = 4 := by decide
  have hus : " us)".length = 4 := by decide
  have hms : " ms)".length = 4 := by decide
  rw [durationText]
  split
  · have := fixed2_length h 1
    simp only [String.length_append]
    omega
  · split
    · have := fixed2_length h 1000
      simp only [String.length_append]
      omega
    · have := fixed2_length h 1000000
      simp only [String.length_append]
      omega

theorem castInt_natAbs (x : UInt64) : (castInt x).natAbs ≤ 2 ^ 31 := by
  rw [castInt]
  have hlt : x.toNat % 2 ^ 32 < 2 ^ 32 := Nat.mod_lt _ (by norm_num)
  split <;> omega

theorem text_undefined (dp dm : Nat) :
    (LineName.undefined dp dm).text =
      "Undefined (DP=" ++ toString dp ++ " / DM=" ++ toString dm ++ ")" := rfl

/-- A name with two undefined levels fits as well. -/
theorem lineName_length {dp dm : Nat} (hp : dp < 4) (hm : dm < 4) :
    (LineName.undefined dp dm).text.length ≤ 40 := by
  have hdp := repr_length_le (k := 1) (by norm_num) (show dp < 10 ^ 1 by omega)
  have hdm := repr_length_le (k := 1) (by norm_num) (show dm < 10 ^ 1 by omega)
  have h1 : "Undefined (DP=".length = 14 := by decide
  have h2 : " / DM=".length = 6 := by decide
  have h3 : ")".length = 1 := by decide
  rw [text_undefined]
  simp only [String.length_append]
  omega

theorem fullText_lineState (name : LineName) (duration : Option Int) :
    (Msg.lineState name duration).fullText =
      "Line state: " ++ name.text ++ (duration.map durationText).getD "" := rfl

theorem sameText_lineState {name : LineName} {duration : Option Int}
    (hname : name.text.length ≤ 40) (hd : ∀ d, duration = some d → d.natAbs ≤ 2 ^ 31) :
    SameText (.lineState name duration) := by
  have hhead : "Line state: ".length = 12 := by decide
  have hsuffix : ((duration.map durationText).getD "").length ≤ 80 := by
    cases duration with
    | none => exact Nat.zero_le _
    | some d => exact durationText_length (hd d rfl)
  have hlen : (Msg.lineState name duration).fullText.length =
      "Line state: ".length + name.text.length + ((duration.map durationText).getD "").length := by
    rw [fullText_lineState, String.length_append, String.length_append]
  refine sameText_of_length (fun h => by cases h) ?_
  calc (Msg.lineState name duration).fullText.length ≤ 12 + 40 + 80 := by
        rw [hlen, hhead]
        exact Nat.add_le_add (Nat.add_le_add_left hname 12) hsuffix
    _ ≤ 511 := by norm_num

theorem sameText_lineStateMsg (p : Packet UInt8) : SameText p.lineStateMsg := by
  refine sameText_lineState ?_ fun d hd => ?_
  · split
    · decide
    · split
      · split <;> decide
      · split
        · split <;> decide
        · exact lineName_length (Nat.mod_lt _ (by norm_num)) (Nat.mod_lt _ (by norm_num))
  · split at hd
    · rw [← Option.some.inj hd]
      exact castInt_natAbs _
    · cases hd

/-! ## States the two share -/

/-- Every text record has a text that both write. -/
def SameTexts (out : List (Record UInt8)) : Prop :=
  ∀ ts m, .info ts m ∈ out → SameText m

/-- A state of a capture without folding, with the speed option that lets
the detected speed stand. -/
structure Shared (p : Packet UInt8) : Prop extends Empty p where
  unfolded : p.opts.foldEmpty = false
  speed : p.opts.captureSpeed = .reset ∨ p.opts.captureSpeed = .ls
  running : p.done = false
  texts : SameTexts p.out

/-- What `Shared` reads, the records apart. -/
def sharedFields (p : Packet UInt8) :
    Nat × List (CaptureFrame UInt8) × Bool × CaptureSpeed × Bool :=
  (p.captureFoldCount, p.captureFoldBuf, p.opts.foldEmpty, p.opts.captureSpeed, p.done)

theorem Shared.congr {p p' : Packet UInt8} (h : Shared p)
    (hf : sharedFields p' = sharedFields p) (ht : SameTexts p'.out) : Shared p' := by
  simp only [sharedFields, Prod.mk.injEq] at hf
  obtain ⟨hcount, hbuf, hfold, hspeed, hdone⟩ := hf
  exact ⟨⟨hcount.trans h.count, hbuf.trans h.buf⟩, hfold.trans h.unfolded, hspeed ▸ h.speed,
    hdone.trans h.running, ht⟩

theorem Shared.effectiveSpeed {p : Packet UInt8} (h : Shared p) :
    p.effectiveSpeed = p.captureSpeedIn := by
  rw [Packet.effectiveSpeed, if_neg]
  rintro ⟨-, hreset, hls⟩
  rcases h.speed with hs | hs
  · exact hreset hs
  · exact hls hs

theorem SameTexts.append {out : List (Record UInt8)} (h : SameTexts out)
    {w : List (UInt64 × Msg)} (hw : ∀ r ∈ w, SameText r.2) :
    SameTexts (out ++ w.map Packet.infoRecord) := by
  intro ts m hmem
  rcases List.mem_append.mp hmem with hmem | hmem
  · exact h ts m hmem
  · obtain ⟨r, hr, heq⟩ := List.mem_map.mp hmem
    obtain ⟨-, rfl⟩ := Record.info.inj heq
    exact hw r hr

theorem pendingRecords_sameText (p : Packet UInt8) :
    ∀ r ∈ p.pendingRecords, SameText r.2 := by
  intro r hr
  rw [Packet.pendingRecords] at hr
  split at hr
  · cases hr
  · rw [List.mem_singleton.mp hr]
    exact sameText_lineStateMsg p

theorem Shared.lineStateEvent {p : Packet UInt8} (h : Shared p) : Shared p.lineStateEvent := by
  rw [Packet.lineStateEvent_eq]
  exact h.congr rfl (h.texts.append (pendingRecords_sameText p))

theorem Shared.captureInfo {p : Packet UInt8} (h : Shared p) {m : Msg} (hm : SameText m)
    (ts : UInt64) : Shared (p.captureInfo ts m) := by
  rw [Packet.captureInfo_eq]
  refine h.congr rfl (h.texts.append fun r hr => ?_)
  rcases List.mem_append.mp hr with hr | hr
  · exact pendingRecords_sameText p r hr
  · rw [List.mem_singleton.mp hr]
    exact hm

/-! ## Records -/

theorem lineStateMsg_port {p : Packet UInt8} (h : Shared p) : lineStateMsg p = p.lineStateMsg := by
  rw [lineStateMsg, Packet.lineStateMsg, h.effectiveSpeed]

theorem lineStateEvent_port {p : Packet UInt8} (h : Shared p) :
    lineStateEvent p = p.lineStateEvent := by
  rw [lineStateEvent, lineStateEventDepth_empty h.toEmpty, Packet.lineStateEvent,
    Packet.lineStateEventDepth, lineStateMsg_port h]
  simp only [Packet.lineStateEventDepth_invalid]
  rfl

/-- With an empty fold buffer `stop_folding` does nothing. -/
theorem stopFolding_port {p : Packet UInt8} (h : Shared p) : stopFolding p = p :=
  stopFoldingDepth_empty h.toEmpty 2

/-- `capture_info` of the two, on a state they share. -/
theorem captureInfo_port {p : Packet UInt8} (h : Shared p) (ts : UInt64) (m : Msg) :
    captureInfo p ts m = p.captureInfo ts m := by
  rw [captureInfo, infoVia, lineStateEvent_port h, stopFolding_port h.lineStateEvent]
  rfl

/-! ## Status events -/

theorem noteGate_port {p : Packet UInt8} (h : Shared p) (wasEnabled : Bool) :
    noteGate p wasEnabled = p.noteGate wasEnabled ∧ Shared (p.noteGate wasEnabled) := by
  rw [noteGate, Packet.noteGate, captureInfo_port h, captureInfo_port h]
  refine ⟨rfl, ?_⟩
  split
  · exact h.captureInfo (m := .startingCapture) rfl _
  · split
    · exact h.captureInfo (m := .waitingForTrigger) rfl _
    · exact h

/-- The trigger input is one bit. -/
theorem sameText_triggerInput (bit : Nat) (h : bit ≤ 1) : SameText (.triggerInput bit) := by
  interval_cases bit <;> rfl

theorem statusTrigger_port {p : Packet UInt8} (h : Shared p) {bit : Nat} (hbit : bit ≤ 1) :
    statusTrigger p bit = p.statusTrigger bit ∧ Shared (p.statusTrigger bit) := by
  have hset : Shared (p.setTrigger bit) := h.congr rfl h.texts
  have hinfo := hset.captureInfo (sameText_triggerInput bit hbit) p.captureTs
  obtain ⟨hgate, hshared⟩ := noteGate_port hinfo p.captureEnabled
  rw [statusTrigger, Packet.statusTrigger, captureInfo_port hset, hgate]
  refine ⟨rfl, ?_⟩
  split
  · exact h
  · exact hshared

theorem sameText_vbus (on : Bool) : SameText (.vbus on) := by
  cases on <;> rfl

theorem statusVbus_port {p : Packet UInt8} (h : Shared p) (vbus : Int) :
    statusVbus p vbus = p.statusVbus vbus ∧ Shared (p.statusVbus vbus) := by
  have hset : Shared { p with captureVbus := vbus } := h.congr rfl h.texts
  rw [statusVbus, Packet.statusVbus, captureInfo_port hset]
  refine ⟨rfl, ?_⟩
  split
  · exact h
  · exact hset.captureInfo (sameText_vbus _) _

theorem sameText_speedMsg (speed : CaptureSpeed) : SameText (Packet.speedMsg speed) := by
  cases speed <;> rfl

theorem statusSpeed_port {p : Packet UInt8} (h : Shared p) (speed : CaptureSpeed) :
    statusSpeed p speed = p.statusSpeed speed ∧ Shared (p.statusSpeed speed) := by
  have hset : Shared { p with captureSpeedIn := some speed } := h.congr rfl h.texts
  rw [statusSpeed, Packet.statusSpeed, captureInfo_port hset]
  refine ⟨rfl, ?_⟩
  split
  · exact h
  · split
    · exact hset.captureInfo (sameText_speedMsg speed) _
    · exact hset

/-! ## The capture limit -/

/-- The two are in the same state, or the one exited with the output with
which the other is done. -/
inductive Agree : Run → Packet UInt8 → Prop where
  | on {p : Packet UInt8} (h : Shared p) : Agree (.ok p) p
  | ended {c : Capture} {p : Packet UInt8} (hout : c.out = p.out) (hdone : p.done = true)
      (htexts : SameTexts p.out) : Agree (.error c) p

theorem Shared.limitDown {p : Packet UInt8} (h : Shared p) : Shared p.limitDown :=
  h.congr rfl h.texts

/-- Where the one exits, the other is done. -/
theorem checkCaptureLimit_port {p : Packet UInt8} (h : Shared p) :
    Agree (checkCaptureLimit p) p.checkCaptureLimit := by
  rw [checkCaptureLimit, Packet.checkCaptureLimit]
  split
  · rw [captureInfo_port h.limitDown]
    exact .ended rfl rfl (h.limitDown.captureInfo (m := .captureLimitReached) rfl _).texts
  · exact .on h.limitDown

theorem keepaliveEvent_port {p : Packet UInt8} (h : Shared p) (ts : UInt64) (delta : Int) :
    Agree (keepaliveEvent p ts delta) (p.keepaliveEvent ts delta) := by
  have hfold : (!p.opts.foldEmpty) = true := by simp [h.unfolded]
  rw [keepaliveEvent, Packet.keepaliveEvent, if_pos hfold, if_pos hfold, writeKeepalive,
    captureInfo_port h]
  split
  · exact .on h
  · exact checkCaptureLimit_port (h.captureInfo (m := .keepAlive) rfl ts)

/-- The time since the saved line state, if it is one `isKeepalive` looks
at, is short of `2 ^ 32` ns. -/
def InTime (p : Packet UInt8) : Prop :=
  p.captureSavedLs = lsSe0 → (p.captureTs - p.captureSavedTs).toNat < 2 ^ 32

/-- `(int)delta` and `delta` are between 1 and 2 us at the same times. -/
theorem castInt_between {x : UInt64} (h : x.toNat < 2 ^ 32) :
    (minKeepaliveDuration < castInt x ∧ castInt x < maxKeepaliveDuration) ↔
      (minKeepaliveDuration < (x.toNat : Int) ∧ (x.toNat : Int) < maxKeepaliveDuration) := by
  rw [castInt, Nat.mod_eq_of_lt h, minKeepaliveDuration, maxKeepaliveDuration]
  split <;> omega

/-- The two take the same line states for keep-alives. -/
theorem isKeepalive_port {p : Packet UInt8} (h : Shared p) (ht : InTime p) (ls : Int) :
    isKeepalive p ls = p.isKeepalive ls := by
  rw [isKeepalive, Packet.isKeepalive, h.effectiveSpeed, Packet.savedDelta]
  by_cases hs : p.captureSavedLs = lsSe0
  · have hb := castInt_between (ht hs)
    rw [Bool.eq_iff_iff]
    simp only [Bool.and_eq_true, beq_iff_eq, decide_eq_true_eq, hb]
  · have hne : (p.captureSavedLs == lsSe0) = false := by simpa using hs
    simp only [hne, Bool.and_false, Bool.false_and]

theorem statusLs_port {p : Packet UInt8} (h : Shared p) {ls : Int}
    (ht : p.captureLs ≠ ls → InTime p) : Agree (statusLs p ls) (p.statusLs ls) := by
  have hset : Shared { p with captureLs := ls } := h.congr rfl h.texts
  have hidle : Shared { p with captureLs := ls, captureSavedLs := lsInvalid } := h.congr rfl h.texts
  rw [statusLs, Packet.statusLs]
  split
  · exact .on h
  · rename_i hne
    rw [lineChange, Packet.lineChange, isKeepalive_port hset (ht hne)]
    split
    · exact keepaliveEvent_port hidle _ _
    · rw [lineStateEvent_port hset]
      have hline := hset.lineStateEvent
      exact .on (hline.congr rfl hline.texts)

/-! ## The saved line state

Text records drop it, and nothing but a change of the line state sets
it. -/

/-- `p'` has the same line state as `p`, and the saved one of `p` or
none. -/
structure SameLine (p p' : Packet UInt8) : Prop where
  ls_eq : p'.captureLs = p.captureLs
  savedTs_eq : p'.captureSavedTs = p.captureSavedTs
  saved : p'.captureSavedLs = p.captureSavedLs ∨ p'.captureSavedLs = lsInvalid

theorem SameLine.refl (p : Packet UInt8) : SameLine p p := ⟨rfl, rfl, .inl rfl⟩

theorem SameLine.trans {p p₁ p₂ : Packet UInt8} (h₁ : SameLine p p₁) (h₂ : SameLine p₁ p₂) :
    SameLine p p₂ := by
  refine ⟨h₂.ls_eq.trans h₁.ls_eq, h₂.savedTs_eq.trans h₁.savedTs_eq, ?_⟩
  rcases h₂.saved with hs | hs
  · rw [hs]
    exact h₁.saved
  · exact .inr hs

theorem sameLine_captureInfo (p : Packet UInt8) (ts : UInt64) (m : Msg) :
    SameLine p (p.captureInfo ts m) := by
  rw [Packet.captureInfo_eq]
  exact ⟨rfl, rfl, .inr rfl⟩

theorem sameLine_lineStateEvent (p : Packet UInt8) : SameLine p p.lineStateEvent := by
  rw [Packet.lineStateEvent_eq]
  exact ⟨rfl, rfl, .inr rfl⟩

theorem sameLine_statusTrigger (p : Packet UInt8) (trigger : Int) :
    SameLine p (p.statusTrigger trigger) := by
  have hset : SameLine p (p.setTrigger trigger) := ⟨rfl, rfl, .inl rfl⟩
  have hinfo := hset.trans (sameLine_captureInfo _ p.captureTs (.triggerInput trigger))
  rw [Packet.statusTrigger, Packet.noteGate]
  split
  · exact .refl p
  · split
    · exact hinfo.trans (sameLine_captureInfo _ _ _)
    · split
      · exact hinfo.trans (sameLine_captureInfo _ _ _)
      · exact hinfo

theorem sameLine_statusVbus (p : Packet UInt8) (vbus : Int) : SameLine p (p.statusVbus vbus) := by
  have hset : SameLine p { p with captureVbus := vbus } := ⟨rfl, rfl, .inl rfl⟩
  rw [Packet.statusVbus]
  split
  · exact .refl p
  · exact hset.trans (sameLine_captureInfo _ _ _)

theorem sameLine_statusSpeed (p : Packet UInt8) (speed : CaptureSpeed) :
    SameLine p (p.statusSpeed speed) := by
  have hset : SameLine p { p with captureSpeedIn := some speed } := ⟨rfl, rfl, .inl rfl⟩
  rw [Packet.statusSpeed]
  split
  · exact .refl p
  · split
    · exact hset.trans (sameLine_captureInfo _ _ _)
    · exact hset

theorem sameLine_headerTimeout (p : Packet UInt8) : SameLine p p.headerTimeout := by
  rw [Packet.headerTimeout, Packet.timeoutEvent]
  split
  · split
    · exact sameLine_captureInfo _ _ _
    · exact .refl p
  · exact .refl p

/-! ## Whole events -/

/-- **A status**, in the two. -/
theorem statusEvent_port {p : Packet UInt8} (h : Shared p) (ls : Int)
    (ht : p.captureLs ≠ ls → InTime p) (vbus : Int) {bit : Nat} (hbit : bit ≤ 1)
    (speed : CaptureSpeed) :
    Agree (statusEvent p ls vbus bit speed) (p.statusEvent ls vbus bit speed) := by
  obtain ⟨htrigger, h₁⟩ := statusTrigger_port h hbit
  obtain ⟨hvbus, h₂⟩ := statusVbus_port h₁ vbus
  obtain ⟨hspeed, h₃⟩ := statusSpeed_port h₂ speed
  rw [statusEvent, Packet.statusEvent, htrigger, hvbus, hspeed]
  -- the saved line state is the one of `p`, or there is none
  have hline := ((sameLine_statusTrigger p bit).trans (sameLine_statusVbus _ vbus)).trans
    (sameLine_statusSpeed _ speed)
  have hts : (((p.statusTrigger bit).statusVbus vbus).statusSpeed speed).captureTs = p.captureTs :=
    (((Packet.signalled_statusTrigger p bit).trans (Packet.signalled_statusVbus _ vbus)).trans
      (Packet.signalled_statusSpeed _ speed)).ts
  refine statusLs_port h₃ fun hne hs => ?_
  rw [hts, hline.savedTs_eq]
  rcases hline.saved with hsaved | hsaved
  · exact ht (hline.ls_eq ▸ hne) (hsaved ▸ hs)
  · rw [hsaved] at hs
    exact absurd hs (by decide)

/-- **A payload**, in the two. -/
theorem dataEvent_port {p : Packet UInt8} (h : Shared p) : Agree (dataEvent p) p.dataEvent := by
  have hline := h.lineStateEvent
  have hflush : dataFlush p.lineStateEvent = p.lineStateEvent.dataFlush ∧
      Shared p.lineStateEvent.dataFlush := by
    have hstop : p.lineStateEvent.stopFolding = p.lineStateEvent := by
      rw [Packet.stopFolding, if_pos ⟨hline.count, by rw [hline.buf]; rfl⟩]
    rw [dataFlush, Packet.dataFlush, stopFolding_port hline, hstop, ite_self]
    exact ⟨rfl, hline⟩
  have hover : noteOverflow p.lineStateEvent.dataFlush = p.lineStateEvent.dataFlush.noteOverflow ∧
      Shared p.lineStateEvent.dataFlush.noteOverflow := by
    rw [noteOverflow, Packet.noteOverflow, captureInfo_port hflush.2]
    refine ⟨rfl, ?_⟩
    split
    · exact hflush.2.captureInfo (m := .hardwareOverflow) rfl _
    · exact hflush.2
  have hphy : notePhyError p.lineStateEvent.dataFlush.noteOverflow = p.dataPrepare ∧
      Shared p.dataPrepare := by
    rw [notePhyError, Packet.dataPrepare, Packet.notePhyError, captureInfo_port hover.2]
    refine ⟨rfl, ?_⟩
    split
    · exact hover.2.captureInfo (m := .phyError) rfl _
    · exact hover.2
  have hwrite : dataWrite p.dataPrepare = p.dataPrepare.dataWrite ∧
      Shared p.dataPrepare.dataWrite := by
    -- without folding both write the frame at once
    have hunfolded : (p.dataPrepare.frameError || !p.dataPrepare.opts.foldEmpty) = true := by
      simp [hphy.2.unfolded]
    rw [dataWrite, Packet.dataWrite, if_pos hunfolded, if_pos hunfolded]
    refine ⟨rfl, hphy.2.congr rfl ?_⟩
    intro ts m hmem
    rcases List.mem_append.mp hmem with hmem | hmem
    · exact hphy.2.texts ts m hmem
    · cases List.mem_singleton.mp hmem
  rw [dataEvent, Packet.dataEvent, lineStateEvent_port h, hflush.1, hover.1, hphy.1, hwrite.1]
  split
  · exact .on h
  · exact checkCaptureLimit_port hwrite.2

/-! ## Headers and payloads -/

theorem Shared.headerTimeout {p : Packet UInt8} (h : Shared p) : Shared p.headerTimeout := by
  rw [Packet.headerTimeout, Packet.timeoutEvent]
  split
  · split
    · exact h.captureInfo (m := .periodicUpdate) rfl _
    · exact h
  · exact h

/-- The update every two seconds. -/
theorem headerTimeout_port {p : Packet UInt8} (h : Shared p)
    (hlast : p.captureLastTs ≤ p.captureTs) (hlt : p.captureTs.toNat < 2 ^ 63) :
    headerTimeout p = p.headerTimeout := by
  have hdiff : (p.captureTs - p.captureLastTs).toNat < 2 ^ 63 := by
    rw [UInt64.toNat_sub_of_le _ _ hlast]
    omega
  have hcast : castS64 (p.captureTs - p.captureLastTs) =
      ((p.captureTs - p.captureLastTs).toNat : Int) := if_pos hdiff
  rw [headerTimeout, Packet.headerTimeout, hcast, timeoutEvent, Packet.timeoutEvent,
    captureInfo_port h]

/-- What follows an event that agrees, in a run that goes on and in one
that is over. -/
theorem Agree.reset {r : Run} {p : Packet UInt8} (h : Agree r p) (ptr : Nat) :
    Agree (r.map fun c => { c with captureDataPtr := ptr }) { p with captureDataPtr := ptr } := by
  cases h with
  | on h => exact .on (h.congr rfl h.texts)
  | ended hout hdone htexts => exact .ended hout hdone htexts

theorem payloadDone_port {p : Packet UInt8} (h : Shared p) : Agree (payloadDone p) p.payloadDone := by
  have hset : Shared { p with captureHeader := true } := h.congr rfl h.texts
  exact (dataEvent_port hset).reset 0

/-- A header as the FPGA sends it: the toggle and the zero bit are right,
the time does not go back, the size of a data frame is legal, and a status
frame comes in time behind the line state before. -/
structure GoodHeader (p : Packet UInt8) : Prop where
  toggle : Packet.flag (p.byteAt 0) 0x40 = p.captureToggle
  zeroBit : Packet.flag (p.byteAt 0) 0x20 = 0
  forward : p.captureTs ≤ p.headerClock.captureTs
  size : p.captureStatus = false → dataHeaderSize ≤ p.headerSize ∧ p.headerSize ≤ maxDataSize
  inTime : p.captureStatus = true → p.captureLs ≠ (p.byteAt 3 &&& 0x0f).toNat →
    InTime p.headerClock

theorem Agree.ok {r : Run} {p : Packet UInt8} (h : Agree r p) (hd : p.done = false) :
    r = .ok p ∧ Shared p := by
  cases h with
  | on h => exact ⟨rfl, h⟩
  | ended hout hdone htexts =>
      rw [hd] at hdone
      cases hdone

theorem flag_le_one (b mask : UInt8) : Packet.flag b mask ≤ 1 := by
  rw [Packet.flag]
  split <;> decide

/-- **A header**, in the two. -/
theorem headerDone_port {p : Packet UInt8} (h : Shared p) (ho : p.Ordered) (hg : GoodHeader p) :
    Agree (headerDone p) p.headerDone := by
  have hclock : Shared p.headerClock := h.congr rfl h.texts
  have htimeout :=
    headerTimeout_port hclock (ho.headerClock hg.forward).last (Packet.headerClock_ts_lt p)
  have hshared := hclock.headerTimeout
  have hok : Packet.flag (p.byteAt 0) 0x40 = p.captureToggle ∧ Packet.flag (p.byteAt 0) 0x20 = 0 :=
    ⟨hg.toggle, hg.zeroBit⟩
  have hcommon : p.headerCommon = p.headerClock.headerTimeout := by
    rw [Packet.headerCommon, Packet.checkHeader, if_pos hok]
  -- the update touches neither the header nor the line state
  have hem : Packet.Emitted p.headerClock p.headerClock.headerTimeout := by
    rw [Packet.headerTimeout]
    split
    · exact (Packet.InfoOnly.timeoutEvent (P := fun _ => True) (fun _ _ => trivial) trivial _).emitted
    · exact .refl _
  have hline := sameLine_headerTimeout p.headerClock
  have hdata : p.headerClock.headerTimeout.captureData = p.captureData := hem.data
  have hbyte : ∀ i, p.headerClock.headerTimeout.byteAt i = p.byteAt i := by
    intro i
    rw [Packet.byteAt, hdata]
    rfl
  have hstatus : p.headerClock.headerTimeout.captureStatus = p.captureStatus :=
    congrArg Packet.Assembler.status hem.assembler_eq
  rw [headerDone, checkHeader, if_pos hok, Packet.headerDone, hcommon, hstatus]
  show Agree (if (headerTimeout p.headerClock).captureStatus then _ else _) _
  rw [htimeout, hstatus]
  cases hs : p.captureStatus with
  | true =>
      have hevent : Agree _ (p.headerClock.headerTimeout.statusOf) :=
        statusEvent_port hshared (p.headerClock.headerTimeout.byteAt 3 &&& 0x0f).toNat
          (fun hne hsaved => ?_) (Packet.flag (p.headerClock.headerTimeout.byteAt 3) 0x10)
          (flag_le_one _ _) (Packet.speedField (p.headerClock.headerTimeout.byteAt 3))
      · exact hevent.reset 0
      · rw [hbyte, hline.ls_eq] at hne
        rw [hem.ts, hline.savedTs_eq]
        rcases hline.saved with hx | hx
        · exact hg.inTime hs hne (hx ▸ hsaved)
        · rw [hx] at hsaved
          exact absurd hsaved (by decide)
  | false =>
      have hsize : p.headerClock.headerTimeout.headerSize = p.headerSize := by
        rw [Packet.headerSize, Packet.headerSize, hbyte, hbyte]
      obtain ⟨hlo, hhi⟩ := hg.size hs
      rw [if_neg Bool.false_ne_true, if_neg Bool.false_ne_true, checkDataSize, hsize,
        if_pos ⟨hlo, hhi⟩, Packet.dataHeader, hsize, if_neg (by omega)]
      exact .on (hshared.congr rfl hshared.texts)

end UsbSniffer.Gen1
