import UsbSniffer.Packet.Assembly
import UsbSniffer.Packet.Folding

/-!
# The capture limit

`--limit N` is a counter that every capture event moves one down, a text
record when it comes to zero, and the flag `done` that stops
`packet_feed`. `tally` reads the three off the packet, and a byte moves it
by as many events as it raised (`tally_captureSm`).

The flag has a second writer: `packet_announce` clears it, to take back a
stop from before the session. A limit reached by then is taken back too,
with the counter at zero, where no event will ever stop the capture
again. `run_hardLimit_iff` says that this is the only way past the limit.
-/

namespace UsbSniffer

/-- The `"Capture limit reached"` record. -/
def Record.isLimit {β : Type} : Record β → Bool
  | .info _ .captureLimitReached => true
  | _ => false

/-- Counter, stop flag and records of the limit. -/
structure Tally where
  left : Int
  done : Bool
  noted : Nat

/-- One capture event. -/
def Tally.spend (t : Tally) : Tally where
  left := t.left - 1
  done := t.done || t.left - 1 == 0
  noted := t.noted + if t.left - 1 = 0 then 1 else 0

/-- The tally after some events. -/
def Tally.after {β : Type} (t : Tally) (evs : List (CaptureEvent β)) : Tally :=
  Tally.spend^[evs.length] t

namespace Packet

variable {β : Type}

def tally (p : Packet β) : Tally where
  left := p.opts.captureLimit
  done := p.done
  noted := p.out.countP Record.isLimit

/-! ## What does not count -/

/-- Any text but the limit's own. -/
def OtherText : Msg → Prop
  | .captureLimitReached => False
  | _ => True

theorem otherText_lineClosed : LineClosed OtherText := fun _ _ => trivial

theorem InfoOnly.tally {p p' : Packet β} (h : InfoOnly OtherText p p') : p'.tally = p.tally := by
  obtain ⟨w, t, s, rfl, hw⟩ := h
  have hnone : (w.map (infoRecord (β := β))).countP Record.isLimit = 0 := by
    rw [List.countP_eq_zero]
    intro x hx
    obtain ⟨r, hr, rfl⟩ := List.mem_map.mp hx
    obtain ⟨ts, m⟩ := r
    cases m <;> first | exact fun h => Bool.false_ne_true h | exact (hw _ hr).elim
  have hcount : (p.out ++ w.map infoRecord).countP Record.isLimit =
      p.out.countP Record.isLimit := by
    rw [List.countP_append, hnone, Nat.add_zero]
  exact congrArg (Tally.mk p.opts.captureLimit p.done) hcount

theorem tally_captureInfo {m : Msg} (hm : OtherText m) (p : Packet β) (ts : UInt64) :
    (captureInfo p ts m).tally = p.tally :=
  (InfoOnly.captureInfo otherText_lineClosed hm p ts).tally

theorem tally_lineStateEvent (p : Packet β) : p.lineStateEvent.tally = p.tally :=
  (InfoOnly.lineStateEvent otherText_lineClosed p).tally

theorem tally_writePacket (p : Packet β) (ts : UInt64) (data : List β) :
    (writePacket p ts data).tally = p.tally := by
  have hcount : (p.out ++ [Record.epb ts data]).countP Record.isLimit =
      p.out.countP Record.isLimit := by
    rw [List.countP_append]
    rfl
  exact congrArg (Tally.mk p.opts.captureLimit p.done) hcount

theorem tally_flush (buf : List (CaptureFrame β)) (p : Packet β) :
    (buf.foldl flushFrame p).tally = p.tally := by
  induction buf generalizing p with
  | nil => rfl
  | cons f fs ih =>
      rw [List.foldl_cons, ih, flushFrame]
      split
      · exact tally_captureInfo (m := .keepAlive) trivial p _
      · exact tally_writePacket p _ _

theorem tally_stopFolding (p : Packet β) : p.stopFolding.tally = p.tally := by
  rw [stopFolding]
  split
  · rfl
  · have hflush : p.flushBuf.tally = p.tally := by
      rw [flushBuf, tally_flush]
      rfl
    rw [noteFolded]
    split
    · exact hflush
    · exact (tally_captureInfo (m := .folded _) trivial _ _).trans hflush

theorem tally_countGroup (p : Packet β) (limit : Nat) : (p.countGroup limit).tally = p.tally := by
  rw [countGroup]
  split
  · rw [tally_stopFolding]
    rfl
  · rfl

theorem tally_statusTrigger (p : Packet β) (trigger : Int) :
    (p.statusTrigger trigger).tally = p.tally := by
  rw [statusTrigger]
  split
  · rfl
  · rw [noteGate]
    have hin : (captureInfo (p.setTrigger trigger) p.captureTs (.triggerInput trigger)).tally =
        p.tally := tally_captureInfo (m := .triggerInput trigger) trivial (p.setTrigger trigger) _
    split
    · exact (tally_captureInfo (m := .startingCapture) trivial _ _).trans hin
    · split
      · exact (tally_captureInfo (m := .waitingForTrigger) trivial _ _).trans hin
      · exact hin

theorem tally_statusVbus (p : Packet β) (vbus : Int) : (p.statusVbus vbus).tally = p.tally := by
  rw [statusVbus]
  split
  · rfl
  · exact tally_captureInfo (m := .vbus _) trivial { p with captureVbus := vbus } _

theorem tally_statusSpeed (p : Packet β) (speed : CaptureSpeed) :
    (p.statusSpeed speed).tally = p.tally := by
  have hmsg : OtherText (speedMsg speed) := by
    cases speed <;> exact trivial
  rw [statusSpeed]
  split
  · rfl
  · split
    · exact tally_captureInfo hmsg { p with captureSpeedIn := some speed } _
    · rfl

theorem tally_dataPrepare (p : Packet β) : p.dataPrepare.tally = p.tally := by
  have hflush : p.lineStateEvent.dataFlush.tally = p.tally := by
    rw [dataFlush]
    split
    · rw [tally_stopFolding, tally_lineStateEvent]
    · exact tally_lineStateEvent p
  have hov : p.lineStateEvent.dataFlush.noteOverflow.tally = p.tally := by
    rw [noteOverflow]
    split
    · exact (tally_captureInfo (m := .hardwareOverflow) trivial _ _).trans hflush
    · exact hflush
  rw [dataPrepare, notePhyError]
  split
  · exact (tally_captureInfo (m := .phyError) trivial _ _).trans hov
  · exact hov

theorem tally_headerTimeout (p : Packet β) : p.headerTimeout.tally = p.tally := by
  rw [headerTimeout]
  split
  · exact (InfoOnly.timeoutEvent otherText_lineClosed trivial p).tally
  · rfl

/-! ## What counts -/

/-- `check_capture_limit` spends one event. -/
theorem tally_checkCaptureLimit (p : Packet β) : p.checkCaptureLimit.tally = p.tally.spend := by
  rw [checkCaptureLimit]
  by_cases h0 : p.opts.captureLimit - 1 = 0
  · have hline : p.limitDown.lineStateEvent.tally = p.limitDown.tally :=
      tally_lineStateEvent p.limitDown
    have hnoted : (captureInfo p.limitDown p.captureTs .captureLimitReached).out.countP
        Record.isLimit = p.out.countP Record.isLimit + 1 := by
      have hout : (captureInfo p.limitDown p.captureTs .captureLimitReached).out =
          p.limitDown.lineStateEvent.out ++ [.info p.captureTs .captureLimitReached] := rfl
      rw [hout, List.countP_append]
      exact congrArg (· + 1) (congrArg Tally.noted hline)
    have hleft : (captureInfo p.limitDown p.captureTs .captureLimitReached).opts.captureLimit =
        p.opts.captureLimit - 1 := congrArg Tally.left hline
    rw [if_pos (show p.limitDown.opts.captureLimit = 0 from h0), tally, Tally.spend, hnoted, hleft]
    simp only [tally, h0, beq_self_eq_true, Bool.or_true, if_true]
  · rw [if_neg (show p.limitDown.opts.captureLimit ≠ 0 from h0), Tally.spend]
    simp only [tally, h0, if_false, Nat.add_zero, beq_eq_false_iff_ne.mpr h0, Bool.or_false]
    rfl

theorem tally_keepaliveEvent (p : Packet β) (ts : UInt64) (delta : Int) :
    (p.keepaliveEvent ts delta).tally = p.tally.after p.keepaliveEvents := by
  rw [keepaliveEvent, keepaliveEvents]
  by_cases he : p.captureEnabled = true
  · rw [if_neg (by simp [he]), if_pos he, tally_checkCaptureLimit]
    refine congrArg Tally.spend ?_
    split
    · exact tally_captureInfo (m := .keepAlive) trivial p ts
    · split
      · exact tally_countGroup p _
      · rfl
  · rw [if_pos (by simpa using he), if_neg he]
    rfl

theorem tally_statusLs (p : Packet β) (ls : Int) :
    (p.statusLs ls).tally = p.tally.after (p.statusLsEvents ls) := by
  rw [statusLs, statusLsEvents]
  split
  · rfl
  · rw [lineChange, lineChangeEvents]
    split
    · exact tally_keepaliveEvent _ _ _
    · exact tally_lineStateEvent { p with captureLs := ls }

theorem tally_statusEvent (p : Packet β) (ls vbus trigger : Int) (speed : CaptureSpeed) :
    (p.statusEvent ls vbus trigger speed).tally =
      p.tally.after (p.statusEvents ls vbus trigger speed) := by
  rw [statusEvent, statusEvents, tally_statusLs, tally_statusSpeed, tally_statusVbus,
    tally_statusTrigger]

/-- `n` of `limit` events are spent, and the flag and the record tell
when they all are. -/
structure Budget (limit : Int) (p : Packet β) (n : Nat) : Prop where
  spent : p.opts.captureLimit + n = limit
  left : 0 ≤ p.opts.captureLimit
  done_iff : p.done = true ↔ p.opts.captureLimit = 0
  noted : p.out.countP Record.isLimit = if p.done then 1 else 0

theorem Budget.of_tally {limit : Int} {p p' : Packet β} {n : Nat} (h : Budget limit p n)
    (ht : p'.tally = p.tally) : Budget limit p' n := by
  have hl : p'.opts.captureLimit = p.opts.captureLimit := congrArg Tally.left ht
  have hd : p'.done = p.done := congrArg Tally.done ht
  have hn : p'.out.countP Record.isLimit = p.out.countP Record.isLimit := congrArg Tally.noted ht
  exact ⟨by rw [hl]; exact h.spent, by rw [hl]; exact h.left, by rw [hl, hd]; exact h.done_iff,
    by rw [hn, hd]; exact h.noted⟩

theorem Budget.spend {limit : Int} {p p' : Packet β} {n : Nat} (h : Budget limit p n)
    (hd : p.done = false) (ht : p'.tally = p.tally.spend) : Budget limit p' (n + 1) := by
  have hl : p'.opts.captureLimit = p.opts.captureLimit - 1 := congrArg Tally.left ht
  have hd' : p'.done = (p.done || p.opts.captureLimit - 1 == 0) := congrArg Tally.done ht
  have hn : p'.out.countP Record.isLimit =
      p.out.countP Record.isLimit + if p.opts.captureLimit - 1 = 0 then 1 else 0 :=
    congrArg Tally.noted ht
  have hne : p.opts.captureLimit ≠ 0 := by
    intro h0
    rw [h.done_iff.mpr h0] at hd
    cases hd
  have hspent := h.spent
  have hleft := h.left
  rw [hd, Bool.false_or] at hd'
  refine ⟨by rw [hl]; push_cast; omega, by rw [hl]; omega, ?_, ?_⟩
  · rw [hd', hl, beq_iff_eq]
  · have hnone := h.noted
    rw [hd] at hnone
    rw [hn, hnone, hd']
    by_cases h0 : p.opts.captureLimit - 1 = 0
    · simp [h0]
    · simp [h0]

theorem tally_announce (p : Packet β) :
    p.announce.tally = { p.tally with done := false } := by
  rw [announce]
  split
  · exact tally_captureInfo (m := .startingCapture) trivial { p with done := false } 0
  · exact tally_captureInfo (m := .waitingForTrigger) trivial { p with done := false } _

theorem Budget.within {limit : Int} {p : Packet β} {n : Nat} (h : Budget limit p n) :
    n ≤ limit ∧ p.out.countP Record.isLimit ≤ 1 := by
  have hspent := h.spent
  have hleft := h.left
  refine ⟨by omega, ?_⟩
  rw [h.noted]
  split
  · exact Nat.le_refl 1
  · exact Nat.zero_le 1

/-- An announcement before the limit is reached leaves the budget as it
is. -/
theorem Budget.announce {limit : Int} {p : Packet β} {n : Nat} (h : Budget limit p n)
    (hd : p.done = false) : Budget limit p.announce n := by
  refine h.of_tally ?_
  rw [tally_announce, ← hd]
  rfl

/-- A chunk of data that is not empty, if there is one. -/
theorem exists_first_byte {chunks : List (List β)} (h : chunks.flatten ≠ []) :
    ∃ pre b ys post, chunks = pre ++ (b :: ys) :: post ∧ pre.flatten = [] := by
  induction chunks with
  | nil => exact absurd rfl h
  | cons c cs ih =>
      cases c with
      | nil =>
          obtain ⟨pre, b, ys, post, he, hp⟩ := ih h
          exact ⟨[] :: pre, b, ys, post, by rw [he]; rfl, hp⟩
      | cons b ys => exact ⟨[], b, ys, cs, rfl, rfl⟩

/-- The calls of a session: data before the announcement and after. -/
def announcedRun (before after : List (List β)) : List (PacketCall β) :=
  before.map .feed ++ .announce :: after.map .feed

/-- A `packet_feed` of the session comes before the announcement or after
it. -/
theorem announcedRun_split {before after : List (List β)} {pre post : List (PacketCall β)}
    {data : List β} (h : announcedRun before after = pre ++ .feed data :: post) :
    (∃ chunks : List (List β), pre = chunks.map .feed) ∨
      (∃ chunks, pre = announcedRun before chunks ∧ data ∈ after) := by
  rcases List.append_eq_append_iff.mp h with ⟨mid, hpre, hrest⟩ | ⟨mid, hbefore, hrest⟩
  · cases mid with
    | nil => cases hrest
    | cons c mid =>
        injection hrest with hc hafter
        subst hc
        obtain ⟨a₁, a₂, rfl, rfl, h₂⟩ := List.map_eq_append_iff.mp hafter
        obtain ⟨d, ds, rfl, hd, -⟩ := List.map_eq_cons_iff.mp h₂
        cases hd
        exact Or.inr ⟨a₁, hpre, List.mem_append_right _ List.mem_cons_self⟩
  · obtain ⟨b₁, b₂, -, hb, -⟩ := List.map_eq_append_iff.mp hbefore
    exact Or.inl ⟨b₁, hb.symm⟩

theorem statusLsEvents_length_le (p : Packet β) (ls : Int) : (p.statusLsEvents ls).length ≤ 1 := by
  rw [statusLsEvents]
  split
  · exact Nat.zero_le 1
  · rw [lineChangeEvents]
    split
    · rw [keepaliveEvents]
      split
      · exact Nat.le_refl 1
      · exact Nat.zero_le 1
    · exact Nat.zero_le 1

variable [ByteLike β]

theorem tally_dataWrite (p : Packet β) : p.dataWrite.tally = p.tally := by
  rw [dataWrite]
  split
  · exact tally_writePacket p _ _
  · split
    · split
      · rfl
      · split
        · exact tally_countGroup p _
        · rw [tally_writePacket, tally_stopFolding]
    · split
      · rfl
      · exact tally_writePacket p _ _

theorem tally_dataEvent (p : Packet β) : p.dataEvent.tally = p.tally.after p.dataEvents := by
  rw [dataEvent, dataEvents]
  by_cases he : p.captureEnabled = true
  · rw [if_neg (by simp [he]), if_pos he, tally_checkCaptureLimit, tally_dataWrite,
      tally_dataPrepare]
    rfl
  · rw [if_pos (by simpa using he), if_neg he]
    rfl

theorem otherText_of_complaint (m : Msg) (h : Complaint m) : OtherText m := by
  cases m <;> first | exact trivial | exact h.elim

theorem tally_headerCommon (p : Packet β) : p.headerCommon.tally = p.tally := by
  have hcheck : ∀ t z, (p.checkHeader t z).tally = p.tally := by
    intro t z
    rcases checkHeader_eq p t z with he | ⟨q, hq, he⟩
    · rw [he]
    · rw [he]
      exact (hq.mono otherText_of_complaint).tally
  rw [headerCommon, tally_headerTimeout]
  exact hcheck _ _

theorem tally_dataHeader (p : Packet β) : p.dataHeader.tally = p.tally := by
  rw [dataHeader]
  split
  · rename_i hsize
    obtain ⟨q, hq, he⟩ := checkDataSize_eq hsize (p := p)
    rw [he]
    exact (hq.mono otherText_of_complaint).tally
  · rfl

theorem tally_headerDone (p : Packet β) :
    p.headerDone.tally = p.tally.after p.headerDoneEvents := by
  rw [headerDone, headerDoneEvents]
  split
  · rw [← tally_headerCommon p]
    exact tally_statusEvent _ _ _ _ _
  · rw [tally_dataHeader, tally_headerCommon]
    rfl

/-- **A byte moves the tally by the events it raises.** -/
theorem tally_captureSm (p : Packet β) (b : β) :
    (p.captureSm b).tally = p.tally.after (p.captureSmEvents b) := by
  have hstore : ((p.startFrame b).storeByte b).tally = p.tally := by
    rw [startFrame]
    split <;> rfl
  rw [captureSm, captureSmEvents, frameStep, frameStepEvents, ← hstore]
  split
  · rfl
  · split
    · exact tally_headerDone _
    · exact tally_dataEvent { (p.startFrame b).storeByte b with captureHeader := true }

theorem captureSmEvents_length_le (p : Packet β) (b : β) :
    (p.captureSmEvents b).length ≤ 1 := by
  rw [captureSmEvents, frameStepEvents]
  split
  · exact Nat.zero_le 1
  · split
    · rw [headerDoneEvents]
      split
      · exact statusLsEvents_length_le _ _
      · exact Nat.zero_le 1
    · rw [payloadDoneEvents, dataEvents]
      split
      · exact Nat.le_refl 1
      · exact Nat.zero_le 1

/-! ## A run within its budget -/

theorem Budget.captureSm {limit : Int} {p : Packet β} {n : Nat} (h : Budget limit p n)
    (hd : p.done = false) (b : β) :
    Budget limit (p.captureSm b) (n + (p.captureSmEvents b).length) := by
  have ht := tally_captureSm p b
  rw [Tally.after] at ht
  rcases Nat.le_one_iff_eq_zero_or_eq_one.mp (captureSmEvents_length_le p b) with h0 | h1
  · rw [h0] at ht ⊢
    exact h.of_tally ht
  · rw [h1] at ht ⊢
    exact h.spend hd ht

theorem Budget.feed {limit : Int} {p : Packet β} {n : Nat} (h : Budget limit p n)
    (data : List β) :
    Budget limit (p.feed data) (n + (p.feedEvents data).length) := by
  induction data generalizing p n with
  | nil => rwa [feed_nil]
  | cons b bs ih =>
      by_cases hd : p.done = true
      · rw [feed_of_done hd, feedEvents, if_pos hd]
        exact h
      · have hd' : p.done = false := by simpa using hd
        rw [feed_cons hd', feedEvents, if_neg hd, List.length_append, ← Nat.add_assoc]
        exact ih (h.captureSm hd' b)

theorem Budget.feeds {limit : Int} {p : Packet β} {n : Nat} (h : Budget limit p n)
    (chunks : List (List β)) :
    Budget limit (p.run (chunks.map .feed)) (n + (p.runEvents (chunks.map .feed)).length) := by
  induction chunks generalizing p n with
  | nil => exact h
  | cons c cs ih =>
      rw [List.map_cons, runEvents, List.length_append, ← Nat.add_assoc]
      exact ih (h.feed c)

theorem budget_new {opts : PacketOpts} (hpos : 0 < opts.captureLimit) :
    Budget opts.captureLimit (new opts : Packet β) 0 where
  spent := Int.add_zero _
  left := Int.le_of_lt hpos
  done_iff := ⟨nofun, fun h0 => absurd h0 (Int.ne_of_gt hpos)⟩
  noted := rfl

/-! ## The limit over a whole run -/

/-- The record has been written. -/
def LimitReached (p : Packet β) : Prop := 0 < p.out.countP Record.isLimit

/-- What the limit should be to a run of calls: at most so many events,
at most one record, and behind it no byte of a `packet_feed` that changes
anything. -/
structure HardLimit (opts : PacketOpts) (calls : List (PacketCall β)) : Prop where
  events_le : ((new opts : Packet β).runEvents calls).length ≤ opts.captureLimit
  noted_le : ((new opts : Packet β).run calls).out.countP Record.isLimit ≤ 1
  still : ∀ pre xs (b : β) ys post, calls = pre ++ .feed (xs ++ b :: ys) :: post →
    LimitReached (((new opts).run pre).feed xs) →
      (((new opts).run pre).feed xs).feed [b] = ((new opts).run pre).feed xs

theorem run_append (p : Packet β) (xs ys : List (PacketCall β)) :
    p.run (xs ++ ys) = (p.run xs).run ys := List.foldl_append

theorem runEvents_append (p : Packet β) (xs ys : List (PacketCall β)) :
    p.runEvents (xs ++ ys) = p.runEvents xs ++ (p.run xs).runEvents ys := by
  induction xs generalizing p with
  | nil => rfl
  | cons c cs ih =>
      rw [List.cons_append, runEvents, runEvents, ih, List.append_assoc]
      rfl

/-- **Every byte of a running capture changes the packet**: it moves the
position in the frame, or ends the payload phase. -/
theorem captureSm_ne (p : Packet β) (b : β) : p.captureSm b ≠ p := by
  intro heq
  have hptr := congrArg captureDataPtr heq
  have hheader := congrArg captureHeader heq
  by_cases hs : (p.captureHeader && p.captureDataPtr == 0) = true
  · -- the first byte of a header, and a header has more
    have h1 := one_lt_headerLength b
    rw [Bool.and_eq_true, beq_iff_eq] at hs
    have hstart : p.startFrame b =
        { p with captureStatus := startsStatus b, captureSize := headerLength b } := by
      rw [startFrame, if_pos (by simp [hs.1, hs.2]), headerLength_cast]
    have hstep : p.captureSm b = (p.startFrame b).storeByte b := by
      rw [captureSm, frameStep, if_pos]
      rw [hstart]
      show ((p.captureDataPtr + 1 : Nat) : Int) < headerLength b
      omega
    rw [hstep, hstart] at hptr
    exact Nat.succ_ne_self _ hptr
  · have hstart : p.startFrame b = p := by rw [startFrame, if_neg hs]
    rw [captureSm, hstart, frameStep] at hptr hheader
    by_cases hlt : (p.storeByte b).captureDataPtr < (p.storeByte b).captureSize
    · rw [if_pos hlt] at hptr
      exact Nat.succ_ne_self _ hptr
    · rw [if_neg hlt] at hptr hheader
      by_cases hh : p.captureHeader = true
      · -- the last byte of a header: back to position 0
        rw [if_pos (show (p.storeByte b).captureHeader = true from hh), headerDone_dataPtr] at hptr
        simp [hh, ← hptr] at hs
      · rw [if_neg (show ¬(p.storeByte b).captureHeader = true from hh)] at hheader
        have hem := emitted_dataEvent { p.storeByte b with captureHeader := true }
        have htrue : (p.storeByte b).payloadDone.captureHeader = true :=
          congrArg Assembler.header hem.assembler_eq
        exact hh (hheader.symm.trans htrue)

theorem run_feeds (p : Packet β) (chunks : List (List β)) :
    p.run (chunks.map .feed) = p.feed chunks.flatten := by
  rw [← feed_flatten, run, List.foldl_map]
  rfl

theorem run_announced (p : Packet β) (before after : List (List β)) :
    p.run (announcedRun before after) =
      (p.run (before.map .feed)).announce.feed after.flatten := by
  rw [announcedRun, run_append, ← run_feeds]
  rfl

/-- Within the budget nothing moves behind the record: it and the flag
come together. -/
theorem Budget.still {limit : Int} {p : Packet β} {n : Nat} (h : Budget limit p n)
    (hr : LimitReached p) (data : List β) : p.feed data = p := by
  refine feed_of_done ?_ data
  by_contra hd
  rw [LimitReached, h.noted, if_neg hd] at hr
  exact Nat.lt_irrefl 0 hr

theorem feedEvents_append (p : Packet β) (xs ys : List β) :
    p.feedEvents (xs ++ ys) = p.feedEvents xs ++ (p.feed xs).feedEvents ys := by
  induction xs generalizing p with
  | nil => rw [feed_nil]; rfl
  | cons b bs ih =>
      rw [List.cons_append, feedEvents, feedEvents]
      by_cases hd : p.done = true
      · rw [if_pos hd, if_pos hd, feed_of_done hd, List.nil_append]
        cases ys with
        | nil => rfl
        | cons y ys => rw [feedEvents, if_pos hd]
      · have hd' : p.done = false := by simpa using hd
        rw [if_neg hd, if_neg hd, ih, feed_cons hd', List.append_assoc]

theorem runEvents_feeds (p : Packet β) (chunks : List (List β)) :
    p.runEvents (chunks.map .feed) = p.feedEvents chunks.flatten := by
  induction chunks generalizing p with
  | nil => rfl
  | cons c cs ih =>
      rw [List.map_cons, runEvents, ih, List.flatten_cons, feedEvents_append]
      rfl

/-- **The capture limit is a hard bound exactly if it has not been
reached when the capture is announced**, or no byte follows the
announcement. -/
theorem run_hardLimit_iff (opts : PacketOpts) (hpos : 0 < opts.captureLimit)
    (before after : List (List UInt8)) :
    HardLimit opts (announcedRun before after) ↔
      ((new opts).run (before.map .feed)).done = false ∨ after.flatten = [] := by
  have hbefore := (budget_new (β := UInt8) hpos).feeds before
  rw [Nat.zero_add] at hbefore
  -- announced before the limit, the budget holds on
  have hannounced : ∀ chunks : List (List UInt8),
      ((new opts).run (before.map .feed)).done = false →
        Budget opts.captureLimit ((new opts).run (announcedRun before chunks))
          ((new opts : Packet UInt8).runEvents (announcedRun before chunks)).length := by
    intro chunks hd
    have ha := (hbefore.announce hd).feeds chunks
    rw [announcedRun, run_append, runEvents_append, List.length_append]
    exact ha
  constructor
  · intro hlimit
    by_contra hcon
    obtain ⟨hdone, hne⟩ := not_or.mp hcon
    -- the first byte behind the announcement moves the packet
    obtain ⟨pre, b, ys, post, rfl, hpre⟩ := exists_first_byte hne
    have hq := hlimit.still (announcedRun before pre) [] b ys (post.map .feed) (by
      simp [announcedRun])
    have hrun : (new opts).run (announcedRun before pre) =
        ((new opts).run (before.map .feed)).announce :=
      (run_announced _ before pre).trans (by rw [hpre, feed_nil])
    have ht := tally_announce ((new opts : Packet UInt8).run (before.map .feed))
    rw [feed_nil, hrun, feed_cons (congrArg Tally.done ht), feed_nil] at hq
    refine captureSm_ne _ b (hq ?_)
    have hnoted := hbefore.noted
    rw [if_pos (by simpa using hdone)] at hnoted
    exact Nat.lt_of_lt_of_eq Nat.one_pos ((congrArg Tally.noted ht).trans hnoted).symm
  · intro hcond
    have hend : ((new opts : Packet UInt8).runEvents (announcedRun before after)).length ≤
          opts.captureLimit ∧
        ((new opts : Packet UInt8).run (announcedRun before after)).out.countP
          Record.isLimit ≤ 1 := by
      rcases hcond with hd | hnil
      · exact (hannounced after hd).within
      · -- nothing is fed behind the announcement, which counts nothing
        have hrun : (new opts).run (announcedRun before after) =
            ((new opts).run (before.map .feed)).announce :=
          (run_announced _ before after).trans (by rw [hnil, feed_nil])
        have hev : (new opts : Packet UInt8).runEvents (announcedRun before after) =
            (new opts).runEvents (before.map .feed) := by
          have hafter := runEvents_feeds ((new opts : Packet UInt8).run (before.map .feed)).announce
            after
          rw [hnil, feedEvents] at hafter
          rw [announcedRun, runEvents_append]
          show _ ++ runEvents _ (after.map .feed) = _
          exact (congrArg (_ ++ ·) hafter).trans (List.append_nil _)
        have hnoted := congrArg Tally.noted
          (tally_announce ((new opts : Packet UInt8).run (before.map .feed)))
        rw [hrun, hev]
        exact ⟨hbefore.within.1, hnoted.trans_le hbefore.within.2⟩
    refine ⟨hend.1, hend.2, ?_⟩
    · intro pre xs b ys post hsplit hr
      rcases announcedRun_split hsplit with ⟨chunks, rfl⟩ | ⟨chunks, rfl, hmem⟩
      · exact (((budget_new hpos).feeds chunks).feed xs).still hr [b]
      · have hd : ((new opts).run (before.map .feed)).done = false := by
          refine hcond.resolve_right fun hnil => ?_
          have hx := List.flatten_eq_nil_iff.mp hnil _ hmem
          exact List.append_ne_nil_of_right_ne_nil xs (List.cons_ne_nil b ys) hx
        exact ((hannounced chunks hd).feed xs).still hr [b]

/-- A limit of one event, a status frame that opens the gate and a data
frame. -/
def limitOpts : PacketOpts := { foldOpts with foldEmpty := false, captureLimit := 1 }

def statusThenData : List UInt8 := [0, 0, 0, 0, 0xc0, 0, 0, 0, 8, 0, 0, 0x69]

theorem run_hardLimit_iff_announcedFirst :
    0 < limitOpts.captureLimit ∧
      (HardLimit limitOpts (announcedRun [] [statusThenData]) ↔
        ((new limitOpts : Packet UInt8).run ([].map .feed)).done = false ∨
          [statusThenData].flatten = []) :=
  ⟨by decide, run_hardLimit_iff limitOpts (by decide) [] [statusThenData]⟩

/-- Announced behind the limit, the capture goes on: a second event is
processed, and counted against a limit of one. -/
theorem lateAnnouncement_passes_limit :
    limitOpts.captureLimit = 1 ∧
      ((new limitOpts).runEvents (announcedRun [statusThenData] [statusThenData])).length = 2 ∧
      ¬ HardLimit limitOpts (announcedRun [statusThenData] [statusThenData]) := by
  have htwo : ((new limitOpts).runEvents
      (announcedRun [statusThenData] [statusThenData])).length = 2 := by decide +kernel
  refine ⟨rfl, htwo, fun h => ?_⟩
  have hle := h.events_le
  rw [htwo] at hle
  exact absurd hle (by decide)

end Packet

end UsbSniffer
