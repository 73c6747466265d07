import UsbSniffer.Packet.Timestamps

/-!
# What a step writes, and when

Between two reads of the clock the frame layer does five things that
matter to its records: it writes a packet, a text or the saved line
state, it forgets the line state, or it changes something else. `Writes`
is the closure of these, with one lemma per function; whatever holds of
the five holds of every function by induction on it.

The first use is `Wrote beats p p'`: records are appended,
`capture_last_ts` is the time of the last one, and `beats` are the times
of the "Periodic update" records among them. Only `timeout_event` has a
beat.
-/

namespace UsbSniffer

/-- The time of a "Periodic update". -/
def Record.beat? {β : Type} : Record β → Option UInt64
  | .info ts .periodicUpdate => some ts
  | _ => none

namespace Packet

variable {β : Type}

/-! ## Records appended -/

/-- `capture_last_ts` after the records `w` are written. -/
def lastWritten (t : UInt64) (w : List (Record β)) : UInt64 := (w.getLast?.map Record.ts).getD t

theorem lastWritten_append (t : UInt64) (w₁ w₂ : List (Record β)) :
    lastWritten t (w₁ ++ w₂) = lastWritten (lastWritten t w₁) w₂ := by
  rw [lastWritten, lastWritten, List.getLast?_append]
  cases w₂.getLast? with
  | none => rfl
  | some r => rfl

/-- From `p` to `p'` records were appended, `beats` are the times of the
updates among them, and `capture_last_ts` followed. -/
def Wrote (beats : List UInt64) (p p' : Packet β) : Prop :=
  ∃ w : List (Record β), p'.out = p.out ++ w ∧ w.filterMap Record.beat? = beats ∧
    p'.captureLastTs = lastWritten p.captureLastTs w

theorem Wrote.same {p p' : Packet β} (ho : p'.out = p.out)
    (hl : p'.captureLastTs = p.captureLastTs) : Wrote [] p p' :=
  ⟨[], by rw [ho, List.append_nil], rfl, hl⟩

theorem Wrote.refl (p : Packet β) : Wrote [] p p := Wrote.same rfl rfl

theorem Wrote.trans {b₁ b₂ : List UInt64} {p p₁ p₂ : Packet β} (h₁ : Wrote b₁ p p₁)
    (h₂ : Wrote b₂ p₁ p₂) : Wrote (b₁ ++ b₂) p p₂ := by
  obtain ⟨w₁, ho₁, hb₁, hl₁⟩ := h₁
  obtain ⟨w₂, ho₂, hb₂, hl₂⟩ := h₂
  refine ⟨w₁ ++ w₂, ?_, ?_, ?_⟩
  · rw [ho₂, ho₁, List.append_assoc]
  · rw [List.filterMap_append, hb₁, hb₂]
  · rw [hl₂, hl₁, lastWritten_append]

/-- A silent step in front, or behind. -/
theorem Wrote.after {beats : List UInt64} {p p₁ p₂ : Packet β} (h₁ : Wrote [] p p₁)
    (h₂ : Wrote beats p₁ p₂) : Wrote beats p p₂ := h₁.trans h₂

theorem Wrote.then {beats : List UInt64} {p p₁ p₂ : Packet β} (h₁ : Wrote beats p p₁)
    (h₂ : Wrote [] p₁ p₂) : Wrote beats p p₂ := by
  have h := h₁.trans h₂
  rwa [List.append_nil] at h

/-- The output only grows. -/
theorem Wrote.grows {beats : List UInt64} {p p' : Packet β} (h : Wrote beats p p') :
    p.out <+: p'.out := by
  obtain ⟨w, ho, -, -⟩ := h
  exact ⟨w, ho.symm⟩

theorem Wrote.mem {beats : List UInt64} {p p' : Packet β} (h : Wrote beats p p') {r : Record β}
    (hr : r ∈ p.out) : r ∈ p'.out := h.grows.subset hr

theorem Wrote.beats_eq {beats : List UInt64} {p p' : Packet β} (h : Wrote beats p p') :
    p'.out.filterMap Record.beat? = p.out.filterMap Record.beat? ++ beats := by
  obtain ⟨w, ho, hb, -⟩ := h
  rw [ho, List.filterMap_append, hb]

/-- From `p` to `p'` records were appended, `r` among them. -/
def Adds (p p' : Packet β) (r : Record β) : Prop :=
  ∃ w : List (Record β), p'.out = p.out ++ w ∧ r ∈ w

theorem Adds.after {p q q' : Packet β} {r : Record β} (hg : p.out <+: q.out)
    (h : Adds q q' r) : Adds p q' r := by
  obtain ⟨w₁, ho₁⟩ := hg
  obtain ⟨w₂, ho₂, hr⟩ := h
  exact ⟨w₁ ++ w₂, by rw [ho₂, ← ho₁, List.append_assoc], List.mem_append_right w₁ hr⟩

theorem Adds.then {p q q' : Packet β} {r : Record β} (h : Adds p q r)
    (hg : q.out <+: q'.out) : Adds p q' r := by
  obtain ⟨w₁, ho₁, hr⟩ := h
  obtain ⟨w₂, ho₂⟩ := hg
  exact ⟨w₁ ++ w₂, by rw [← ho₂, ho₁, List.append_assoc], List.mem_append_left w₂ hr⟩

theorem Adds.of_out {p q q' : Packet β} {r : Record β} (h : Adds p q r) (ho : q'.out = q.out) :
    Adds p q' r := by
  obtain ⟨w, hw, hr⟩ := h
  exact ⟨w, ho.trans hw, hr⟩

theorem Adds.mem {p p' : Packet β} {r : Record β} (h : Adds p p' r) : r ∈ p'.out := by
  obtain ⟨w, ho, hr⟩ := h
  rw [ho]
  exact List.mem_append_right _ hr

/-! ## The closure -/

/-- A text that is neither an update nor a line state. -/
def Other : Msg → Prop
  | .periodicUpdate | .lineState _ _ => False
  | _ => True

theorem beat?_of_other {m : Msg} (h : Other m) (ts : UInt64) :
    (Record.info ts m : Record β).beat? = none := by
  cases m <;> first | rfl | exact h.elim

/-- The output, the clock, and the saved line state. -/
def writing (p : Packet β) : List (Record β) × UInt64 × UInt64 × Int × UInt64 :=
  (p.out, p.captureLastTs, p.captureTs, p.captureSavedLs, p.captureSavedTs)

/-- What the frame layer does without reading the clock. -/
inductive Writes : Packet β → Packet β → Prop where
  | same {p p' : Packet β} (h : p'.writing = p.writing) : Writes p p'
  | forget (p : Packet β) : Writes p { p with captureSavedLs := lsInvalid }
  | line (p : Packet β) : Writes p p.lineStateEvent
  | note {m : Msg} (hm : Other m) (p : Packet β) (ts : UInt64) : Writes p (writeInfo p ts m)
  | packet (p : Packet β) (ts : UInt64) (data : List β) : Writes p (writePacket p ts data)
  | trans {p q r : Packet β} (h₁ : Writes p q) (h₂ : Writes q r) : Writes p r

theorem Writes.refl (p : Packet β) : Writes p p := .same rfl

theorem wrote_lineStateEvent (p : Packet β) : Wrote [] p p.lineStateEvent := by
  rw [lineStateEvent_eq]
  refine ⟨p.pendingRecords.map infoRecord, rfl, ?_, ?_⟩
  · rw [pendingRecords]
    split <;> rfl
  · show p.pendingLastTs = _
    rw [pendingLastTs, pendingRecords]
    split <;> rfl

/-- No beat but in `timeout_event`. -/
theorem Writes.wrote {p p' : Packet β} (h : Writes p p') : Wrote [] p p' := by
  induction h with
  | same h =>
      simp only [writing, Prod.mk.injEq] at h
      exact Wrote.same h.1 h.2.1
  | forget p => exact Wrote.same rfl rfl
  | line p => exact wrote_lineStateEvent p
  | @note m hm p ts =>
      refine ⟨[.info ts m], rfl, ?_, rfl⟩
      rw [List.filterMap_cons_none (beat?_of_other hm ts), List.filterMap_nil]
  | packet p ts data => exact ⟨[.epb ts data], rfl, rfl, rfl⟩
  | trans _ _ ih₁ ih₂ => exact ih₁.after ih₂

theorem Writes.mem {p p' : Packet β} (h : Writes p p') {r : Record β} (hr : r ∈ p.out) :
    r ∈ p'.out := h.wrote.mem hr

theorem Writes.grows {p p' : Packet β} (h : Writes p p') : p.out <+: p'.out := h.wrote.grows

theorem writes_captureInfo {m : Msg} (hm : Other m) (p : Packet β) (ts : UInt64) :
    Writes p (captureInfo p ts m) :=
  (Writes.line p).trans (.note hm p.lineStateEvent ts)

/-! ## Folding and the events -/

theorem writes_flush (buf : List (CaptureFrame β)) (p : Packet β) :
    Writes p (buf.foldl flushFrame p) := by
  induction buf generalizing p with
  | nil => exact .refl p
  | cons f fs ih =>
      refine Writes.trans ?_ (ih (flushFrame p f))
      rw [flushFrame]
      split
      · exact writes_captureInfo (m := .keepAlive) trivial p _
      · exact .packet p _ _

theorem writes_stopFolding (p : Packet β) : Writes p p.stopFolding := by
  have hflush : Writes p p.flushBuf :=
    Writes.trans (q := { p with captureFoldCount := 0, captureFoldBuf := [] }) (.same rfl)
      (writes_flush p.captureFoldBuf _)
  rw [stopFolding]
  split
  · exact .refl p
  · rw [noteFolded]
    split
    · exact hflush
    · exact hflush.trans (writes_captureInfo (m := .folded p.captureFoldCount) trivial _ _)

theorem writes_countGroup (p : Packet β) (limit : Nat) : Writes p (p.countGroup limit) := by
  have hdrop : Writes p p.dropGroup := .same rfl
  rw [countGroup]
  split
  · exact hdrop.trans (writes_stopFolding p.dropGroup)
  · exact hdrop

theorem writes_checkCaptureLimit (p : Packet β) : Writes p p.checkCaptureLimit := by
  have hdown : Writes p p.limitDown := .same rfl
  rw [checkCaptureLimit]
  split
  · exact (hdown.trans (writes_captureInfo (m := .captureLimitReached) trivial _ _)).trans
      (.same rfl)
  · exact hdown

theorem writes_keepaliveEvent (p : Packet β) (ts : UInt64) (delta : Int) :
    Writes p (p.keepaliveEvent ts delta) := by
  rw [keepaliveEvent]
  split
  · exact .refl p
  · refine Writes.trans ?_ (writes_checkCaptureLimit _)
    split
    · exact writes_captureInfo (m := .keepAlive) trivial p ts
    · split
      · exact (writes_countGroup p foldLimitLsFs).trans (.same rfl)
      · exact .same rfl

theorem writes_statusTrigger (p : Packet β) (trigger : Int) :
    Writes p (p.statusTrigger trigger) := by
  have hset : Writes p (p.setTrigger trigger) := .same rfl
  rw [statusTrigger]
  split
  · exact .refl p
  · refine (hset.trans (writes_captureInfo (m := .triggerInput trigger) trivial _
      p.captureTs)).trans ?_
    rw [noteGate]
    split
    · exact writes_captureInfo (m := .startingCapture) trivial _ _
    · split
      · exact writes_captureInfo (m := .waitingForTrigger) trivial _ _
      · exact .refl _

theorem writes_statusVbus (p : Packet β) (vbus : Int) : Writes p (p.statusVbus vbus) := by
  have hset : Writes p { p with captureVbus := vbus } := .same rfl
  rw [statusVbus]
  split
  · exact .refl p
  · exact hset.trans (writes_captureInfo (m := .vbus (vbus != 0)) trivial _ _)

theorem writes_statusSpeed (p : Packet β) (speed : CaptureSpeed) :
    Writes p (p.statusSpeed speed) := by
  have hset : Writes p { p with captureSpeedIn := some speed } := .same rfl
  have hm : Other (speedMsg speed) := by cases speed <;> trivial
  rw [statusSpeed]
  split
  · exact .refl p
  · split
    · exact hset.trans (writes_captureInfo hm _ _)
    · exact hset

/-- A change of the line state ends with a new state saved, or without
one. -/
theorem writes_statusLs (p : Packet β) (ls : Int) :
    ∃ q, Writes p q ∧ (p.statusLs ls = q ∨ p.statusLs ls = q.saveLine ls) := by
  have hset : Writes p { p with captureLs := ls } := .same rfl
  rw [statusLs]
  split
  · exact ⟨p, .refl p, Or.inl rfl⟩
  · rw [lineChange]
    split
    · exact ⟨_, (hset.trans (.forget _)).trans (writes_keepaliveEvent _ _ _), Or.inl rfl⟩
    · exact ⟨_, hset.trans (.line _), Or.inr rfl⟩

theorem wrote_statusLs (p : Packet β) (ls : Int) : Wrote [] p (p.statusLs ls) := by
  obtain ⟨q, hq, he | he⟩ := writes_statusLs p ls
  · rw [he]
    exact hq.wrote
  · rw [he]
    exact hq.wrote.after (Wrote.same rfl rfl)

theorem wrote_statusEvent (p : Packet β) (ls vbus trigger : Int) (speed : CaptureSpeed) :
    Wrote [] p (p.statusEvent ls vbus trigger speed) :=
  (((writes_statusTrigger p trigger).trans (writes_statusVbus _ vbus)).trans
    (writes_statusSpeed _ speed)).wrote.after (wrote_statusLs _ ls)

theorem writes_dataFlush (p : Packet β) : Writes p p.dataFlush := by
  rw [dataFlush]
  split
  · exact writes_stopFolding p
  · exact .refl p

theorem writes_noteOverflow (p : Packet β) : Writes p p.noteOverflow := by
  rw [noteOverflow]
  split
  · exact writes_captureInfo (m := .hardwareOverflow) trivial _ _
  · exact .refl p

theorem writes_notePhyError (p : Packet β) : Writes p p.notePhyError := by
  rw [notePhyError]
  split
  · exact writes_captureInfo (m := .phyError) trivial _ _
  · exact .refl p

theorem writes_dataPrepare (p : Packet β) : Writes p p.dataPrepare :=
  (((Writes.line p).trans (writes_dataFlush _)).trans (writes_noteOverflow _)).trans
    (writes_notePhyError _)

/-! ## The frame assembler -/

/-- The frame's time has come for an update: the gate is open, and the
last record is more than 2 s old. -/
def timeoutBeats (p : Packet β) : List UInt64 :=
  if castS64 (p.captureTs - p.captureLastTs) > updateInterval ∧ p.captureEnabled then
    [p.captureTs]
  else []

/-- The one record with a beat. -/
theorem wrote_timeoutEvent (p : Packet β) :
    Wrote (if p.captureEnabled then [p.captureTs] else []) p p.timeoutEvent := by
  rw [timeoutEvent]
  split
  · exact (wrote_lineStateEvent p).after ⟨[.info p.captureTs .periodicUpdate], rfl, rfl, rfl⟩
  · exact Wrote.refl p

theorem wrote_headerTimeout (p : Packet β) : Wrote p.timeoutBeats p p.headerTimeout := by
  rw [headerTimeout, timeoutBeats]
  by_cases hlate : castS64 (p.captureTs - p.captureLastTs) > updateInterval
  · rw [if_pos hlate]
    simp only [hlate, true_and]
    exact wrote_timeoutEvent p
  · rw [if_neg hlate, if_neg fun h => hlate h.1]
    exact Wrote.refl p

theorem writes_announce (p : Packet β) : Writes p p.announce := by
  have hset : Writes p { p with done := false } := .same rfl
  rw [announce]
  split
  · exact (hset.trans (writes_captureInfo (m := .startingCapture) trivial _ 0)).trans (.same rfl)
  · exact hset.trans (writes_captureInfo (m := .waitingForTrigger) trivial _ _)

variable [ByteLike β]

theorem writes_dataWrite (p : Packet β) : Writes p p.dataWrite := by
  have hfold : ∀ q : Packet β, Writes q (foldPacket q p.captureTs p.payload) :=
    fun q => .same rfl
  rw [dataWrite]
  split
  · exact .packet p _ _
  · split
    · split
      · exact hfold p
      · split
        · exact (writes_countGroup p _).trans (hfold _)
        · exact (writes_stopFolding p).trans (.packet _ _ _)
    · split
      · exact hfold p
      · exact .packet p _ _

theorem writes_dataEvent (p : Packet β) : Writes p p.dataEvent := by
  rw [dataEvent]
  split
  · exact .refl p
  · exact ((writes_dataPrepare p).trans (writes_dataWrite _)).trans (writes_checkCaptureLimit _)

theorem writes_desyncError (p : Packet β) : Writes p p.desyncError :=
  ((writes_captureInfo (m := .desynchronization) trivial p _).trans
    (writes_captureInfo (m := .packetHeader _) trivial _ _)).trans (.same rfl)

theorem writes_checkHeader (p : Packet β) (toggle zeroBit : Nat) :
    Writes p (p.checkHeader toggle zeroBit) := by
  have htoggle : Writes p (p.noteToggle toggle) := by
    rw [noteToggle]
    split
    · exact writes_captureInfo (m := .toggleError _ _) trivial _ _
    · exact .refl p
  have hzero : ∀ q : Packet β, Writes q (q.noteZeroBit zeroBit) := by
    intro q
    rw [noteZeroBit]
    split
    · exact writes_captureInfo (m := .zeroBitError) trivial _ _
    · exact .refl q
  rw [checkHeader]
  split
  · exact .refl p
  · exact (htoggle.trans (hzero _)).trans (writes_desyncError _)

theorem writes_dataHeader (p : Packet β) : Writes p p.dataHeader := by
  rw [dataHeader, checkDataSize]
  split
  · split
    · exact .refl p
    · exact (writes_captureInfo (m := .dataSizeError _) trivial _ _).trans (writes_desyncError _)
  · exact .same rfl

theorem wrote_statusHeader (p : Packet β) : Wrote [] p p.statusHeader :=
  (wrote_statusEvent p _ _ _ _).after (Wrote.same rfl rfl)

/-- The state `capture_sm` compares with the clock: the header checked,
its time decoded. -/
def clocked (p : Packet β) : Packet β :=
  headerClock (checkHeader p (flag (p.byteAt 0) 0x40) (flag (p.byteAt 0) 0x20))

theorem wrote_clocked (p : Packet β) : Wrote [] p p.clocked :=
  (writes_checkHeader p _ _).wrote.after (Wrote.same rfl rfl)

theorem wrote_headerDone (p : Packet β) : Wrote p.clocked.timeoutBeats p p.headerDone := by
  have hcommon : Wrote p.clocked.timeoutBeats p p.headerCommon :=
    (wrote_clocked p).after (wrote_headerTimeout p.clocked)
  rw [headerDone]
  split
  · exact hcommon.then (wrote_statusHeader _)
  · exact hcommon.then (writes_dataHeader _).wrote

theorem writes_payloadDone (p : Packet β) : Writes p p.payloadDone := by
  have hset : Writes p { p with captureHeader := true } := .same rfl
  exact hset.trans ((writes_dataEvent _).trans (.same rfl))

/-! ## One byte -/

/-- The frame so far with the byte `b` stored. -/
def pushed (p : Packet β) (b : β) : Packet β := (p.startFrame b).storeByte b

/-- The byte `b` completes a frame header. -/
def endsHeader (p : Packet β) (b : β) : Bool :=
  (p.pushed b).captureHeader && decide ((p.pushed b).captureSize ≤ (p.pushed b).captureDataPtr)

theorem writes_pushed (p : Packet β) (b : β) : Writes p (p.pushed b) := by
  rw [pushed, startFrame]
  split <;> exact .same rfl

theorem captureSm_endsHeader {p : Packet β} {b : β} (h : p.endsHeader b = true) :
    p.captureSm b = (p.pushed b).headerDone := by
  rw [endsHeader, Bool.and_eq_true, decide_eq_true_eq] at h
  have hge : ¬ ((p.startFrame b).storeByte b).captureDataPtr <
      ((p.startFrame b).storeByte b).captureSize := not_lt.mpr h.2
  rw [captureSm, frameStep, if_neg hge]
  exact if_pos h.1

/-- One byte is stored, completes a header, or completes a payload. -/
theorem captureSm_cases {I : Packet β → Prop} {p : Packet β} {b : β}
    (hpart : (p.pushed b).captureDataPtr < (p.pushed b).captureSize → I (p.pushed b))
    (hheader : p.endsHeader b = true → I (p.pushed b).headerDone)
    (hpayload : (p.pushed b).captureHeader = false → I (p.pushed b).payloadDone) :
    I (p.captureSm b) := by
  by_cases he : p.endsHeader b = true
  · rw [captureSm_endsHeader he]
    exact hheader he
  · rw [captureSm, frameStep, ← pushed]
    rw [endsHeader, Bool.and_eq_true, decide_eq_true_eq] at he
    split
    · rename_i hlt
      exact hpart hlt
    · rename_i hge
      have hphase : ¬ (p.pushed b).captureHeader = true := fun hh => he ⟨hh, not_lt.mp hge⟩
      rw [if_neg hphase]
      exact hpayload (Bool.eq_false_iff.mpr hphase)

theorem endsHeader_header {p : Packet β} {b : β} (h : p.endsHeader b = true) :
    (p.pushed b).captureHeader = true := by
  rw [endsHeader, Bool.and_eq_true] at h
  exact h.1

/-- A byte that completes no header does not read the clock. -/
theorem writes_captureSm {p : Packet β} {b : β} (h : ¬ p.endsHeader b = true) :
    Writes p (p.captureSm b) :=
  captureSm_cases (fun _ => writes_pushed p b) (fun he => absurd he h)
    (fun _ => (writes_pushed p b).trans (writes_payloadDone _))

/-- The times of the updates the byte `b` triggers. -/
def beats (p : Packet β) (b : β) : List UInt64 :=
  if p.endsHeader b then (p.pushed b).clocked.timeoutBeats else []

/-- **One byte writes its updates and no others.** -/
theorem wrote_captureSm (p : Packet β) (b : β) : Wrote (p.beats b) p (p.captureSm b) := by
  rw [beats]
  by_cases he : p.endsHeader b = true
  · rw [if_pos he, captureSm_endsHeader he]
    exact (writes_pushed p b).wrote.after (wrote_headerDone _)
  · rw [if_neg he]
    exact (writes_captureSm he).wrote

end Packet

end UsbSniffer
