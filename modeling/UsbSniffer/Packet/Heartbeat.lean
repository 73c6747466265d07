import UsbSniffer.Packet.Steps
import UsbSniffer.Packet.Written

/-!
# The heartbeat

A capture that has been silent for more than 2 s says so, once: the 2 s
update of `capture_sm` against `capture_last_ts`. Packets, text records,
late line states and flushed frames all set `capture_last_ts`, some of
them back from the time of the current frame. It stays the time of the
last record in the output (`Latest`), and, with `Ordered`, no function
lowers it. Both ends of the law follow from that.
-/

namespace UsbSniffer.Packet

variable {β : Type}

/-- `capture_last_ts` is the time of the last record written. -/
def Latest (p : Packet β) : Prop := p.captureLastTs = lastWritten 0 p.out

theorem Wrote.latest {beats : List UInt64} {p p' : Packet β} (h : Wrote beats p p')
    (hl : Latest p) : Latest p' := by
  obtain ⟨w, ho, -, hlast⟩ := h
  have hp : p.captureLastTs = lastWritten 0 p.out := hl
  rw [Latest, hlast, hp, ho, lastWritten_append]

theorem lastWritten_zero_le {w : List (Record β)} {t : UInt64} (h : ∀ r ∈ w, r.ts ≤ t) :
    lastWritten 0 w ≤ t := by
  rw [lastWritten]
  cases hw : w.getLast? with
  | none => exact UInt64.zero_le
  | some r => exact h r (List.mem_of_getLast? hw)

/-- **Writing does not lower `capture_last_ts`**, clamped flushes and
late line states included. -/
theorem Wrote.last_le {beats : List UInt64} {p p' : Packet β} (h : Wrote beats p p')
    (hl : Latest p) (ho : Ordered p') : p.captureLastTs ≤ p'.captureLastTs := by
  have hp : p.captureLastTs = lastWritten 0 p.out := hl
  rw [hp]
  exact lastWritten_zero_le fun r hr => ho.written r (h.mem hr)

/-! ## The two sides of the interval -/

/-- `capture_ts - capture_last_ts`. -/
def gap (p : Packet β) : Int := (p.captureTs.toNat : Int) - p.captureLastTs.toNat

/-- With the gate open the last record is at most 2 s old. -/
def Fresh (p : Packet β) : Prop := p.captureEnabled = true → p.gap ≤ updateInterval

theorem gap_nonneg {p : Packet β} (ho : Ordered p) : 0 ≤ p.gap := by
  have hle := UInt64.le_iff_toNat_le.mp ho.last
  rw [gap]
  omega

theorem gap_of_written {p : Packet β} (h : p.captureLastTs = p.captureTs) :
    p.gap ≤ updateInterval := by
  rw [gap, h, updateInterval, timeMs]
  omega

/-- The age of the last record in 64 bits is the true one. -/
theorem castS64_gap {p : Packet β} (ho : Ordered p) (hlt : p.captureTs.toNat < 2 ^ 63) :
    castS64 (p.captureTs - p.captureLastTs) = p.gap := by
  have hle := UInt64.le_iff_toNat_le.mp ho.last
  have hsub := UInt64.toNat_sub_of_le _ _ ho.last
  rw [castS64, if_pos (by omega), hsub, gap]
  omega

theorem headerTimeout_enabled (p : Packet β) :
    p.headerTimeout.captureEnabled = p.captureEnabled := by
  rw [headerTimeout, timeoutEvent]
  split
  · split
    · exact (emitted_captureInfo p _ _).enabled
    · rfl
  · rfl

/-- After the update, if there was one, the interval starts again. -/
theorem headerTimeout_fresh {p : Packet β} (ho : Ordered p) (hlt : p.captureTs.toNat < 2 ^ 63) :
    Fresh p.headerTimeout := by
  intro hen
  rw [headerTimeout_enabled] at hen
  rw [headerTimeout, castS64_gap ho hlt]
  split
  · rw [timeoutEvent, if_pos hen]
    refine gap_of_written ?_
    rw [captureInfo_eq]
  · rename_i hnot
    exact not_lt.mp hnot

/-- What writes and leaves clock and gate alone keeps the interval. -/
theorem Fresh.wrote {beats : List UInt64} {p p' : Packet β} (h : Fresh p)
    (hw : Wrote beats p p') (hl : Latest p) (ho : Ordered p') (hts : p'.captureTs = p.captureTs)
    (hen : p'.captureEnabled = p.captureEnabled) : Fresh p' := by
  intro hen'
  have hgap := h (hen ▸ hen')
  have hle := UInt64.le_iff_toNat_le.mp (hw.last_le hl ho)
  rw [gap] at hgap ⊢
  rw [hts]
  omega

/-! ## Status frames

A change of the trigger input is itself recorded, so a gate that opens
starts a new interval. -/

theorem noteGate_last {p : Packet β} (h : p.captureLastTs = p.captureTs) (wasEnabled : Bool) :
    (p.noteGate wasEnabled).captureLastTs = (p.noteGate wasEnabled).captureTs := by
  rw [noteGate, captureInfo_eq, captureInfo_eq]
  split
  · rfl
  · split
    · rfl
    · exact h

theorem statusTrigger_fresh {p : Packet β} (h : Fresh p) (trigger : Int) :
    Fresh (p.statusTrigger trigger) := by
  rw [statusTrigger]
  split
  · exact h
  · intro _
    refine gap_of_written (noteGate_last ?_ _)
    rw [captureInfo_eq]
    rfl

theorem statusVbus_enabled (p : Packet β) (vbus : Int) :
    (p.statusVbus vbus).captureEnabled = p.captureEnabled := by
  rw [statusVbus, captureInfo_eq]
  split <;> rfl

theorem statusSpeed_enabled (p : Packet β) (speed : CaptureSpeed) :
    (p.statusSpeed speed).captureEnabled = p.captureEnabled := by
  rw [statusSpeed, captureInfo_eq]
  split
  · rfl
  · split <;> rfl

theorem statusLs_enabled (p : Packet β) (ls : Int) :
    (p.statusLs ls).captureEnabled = p.captureEnabled := by
  rw [statusLs]
  split
  · rfl
  · rw [lineChange]
    split
    · exact (emitted_keepaliveEvent _ _ _).enabled
    · exact (emitted_lineStateEvent { p with captureLs := ls }).enabled

theorem statusEvent_fresh {p : Packet β} (h : Fresh p) (hl : Latest p) (ho : Ordered p)
    (ls vbus trigger : Int) (speed : CaptureSpeed) :
    Fresh (p.statusEvent ls vbus trigger speed) := by
  have ht := statusTrigger_fresh h trigger
  have hlt := (writes_statusTrigger p trigger).wrote.latest hl
  have hot := ho.statusTrigger trigger
  have hwrote := ((writes_statusVbus (p.statusTrigger trigger) vbus).trans
    (writes_statusSpeed _ speed)).wrote.after (wrote_statusLs _ ls)
  have hsig := ((signalled_statusVbus (p.statusTrigger trigger) vbus).trans
    (signalled_statusSpeed _ speed)).trans (signalled_statusLs _ ls)
  refine ht.wrote hwrote hlt (((hot.statusVbus vbus).statusSpeed speed).statusLs ls) hsig.ts ?_
  rw [statusEvent, statusLs_enabled, statusSpeed_enabled, statusVbus_enabled]

variable [ByteLike β]

/-! ## One header -/

theorem dataHeader_enabled (p : Packet β) : p.dataHeader.captureEnabled = p.captureEnabled := by
  rw [dataHeader]
  split
  · rename_i hbad
    obtain ⟨q, hq, he⟩ := checkDataSize_eq (p := p) hbad
    rw [he]
    exact hq.emitted.enabled
  · rfl

theorem checkHeader_enabled (p : Packet β) (toggle zeroBit : Nat) :
    (p.checkHeader toggle zeroBit).captureEnabled = p.captureEnabled := by
  rcases checkHeader_eq p toggle zeroBit with he | ⟨q, hq, he⟩
  · rw [he]
  · rw [he]
    exact hq.emitted.enabled

theorem clocked_ordered {p : Packet β} (h : Ordered p)
    (hts : p.captureTs ≤ p.headerDone.captureTs) : Ordered p.clocked := by
  refine (h.checkHeader _ _).headerClock ?_
  rw [checkHeader_ts, ← headerDone_ts]
  exact hts

theorem clocked_ts (p : Packet β) : p.clocked.captureTs = p.headerDone.captureTs :=
  (headerDone_ts p).symm

theorem clocked_enabled (p : Packet β) : p.clocked.captureEnabled = p.captureEnabled :=
  checkHeader_enabled p _ _

/-- **Right after a header the last record is at most 2 s old**, if the
gate is open then. -/
theorem headerDone_fresh {p : Packet β} (hl : Latest p) (h : Ordered p)
    (hts : p.captureTs ≤ p.headerDone.captureTs) : Fresh p.headerDone := by
  have hoc := clocked_ordered h hts
  have hcommon : Fresh p.headerCommon := headerTimeout_fresh hoc (headerClock_ts_lt _)
  have hlc : Latest p.headerCommon :=
    ((wrote_clocked p).after (wrote_headerTimeout p.clocked)).latest hl
  have hocc : Ordered p.headerCommon := hoc.headerTimeout
  have hdone := h.headerDone hts
  rw [headerDone] at hdone ⊢
  split at hdone
  · rename_i hs
    rw [if_pos hs]
    exact statusEvent_fresh hcommon hlc hocc _ _ _ _
  · rename_i hs
    rw [if_neg hs]
    exact hcommon.wrote (writes_dataHeader _).wrote hlc hdone (dataHeader_ts _) (dataHeader_enabled _)

/-! ## The law -/

/-- How long the output has been silent when the header that `b`
completes is compared with the clock. -/
def silence (p : Packet β) (b : β) : Int :=
  ((p.captureSm b).captureTs.toNat : Int) - (lastWritten 0 (p.pushed b).clocked.out).toNat

/-- The byte `b` completes a header more than 2 s after the last record,
with the gate open. -/
def Overdue (p : Packet β) (b : β) : Prop :=
  p.endsHeader b = true ∧ p.captureEnabled = true ∧ updateInterval < p.silence b

instance (p : Packet β) (b : β) : Decidable (p.Overdue b) :=
  inferInstanceAs (Decidable (_ ∧ _ ∧ _))

/-- The update that is due at the byte `b`. -/
def dueBeats (s : Packet β × β) : List UInt64 :=
  if s.1.Overdue s.2 then [(s.1.captureSm s.2).captureTs] else []

/-- What the updates of a session satisfy, from the state `p`. -/
structure Heartbeat (p : Packet β) (calls : List (PacketCall β)) : Prop where
  /-- After a header with the gate open, the last record is at most 2 s
  old. -/
  within : ∀ s ∈ p.runSteps calls, s.1.endsHeader s.2 = true →
    (s.1.captureSm s.2).captureEnabled = true →
      0 ≤ (s.1.captureSm s.2).gap ∧ (s.1.captureSm s.2).gap ≤ updateInterval
  /-- An update is more than 2 s younger than every record before its
  frame. -/
  spaced : ∀ s ∈ p.runSteps calls, ∀ t ∈ dueBeats s, ∀ r ∈ s.1.out,
    (r.ts.toNat : Int) + updateInterval < t.toNat
  /-- The updates written are the ones due, each once. -/
  exact : (p.run calls).out.filterMap Record.beat? =
    p.out.filterMap Record.beat? ++ (p.runSteps calls).flatMap dueBeats

/-- The state in front of a byte, as a session whose clock never goes
back meets it. -/
structure Timed (p : Packet β) : Prop where
  ordered : Ordered p
  latest : Latest p

theorem pushed_ts (p : Packet β) (b : β) : (p.pushed b).captureTs = p.captureTs := by
  rw [pushed, startFrame]
  split <;> rfl

theorem pushed_enabled (p : Packet β) (b : β) :
    (p.pushed b).captureEnabled = p.captureEnabled := by
  rw [pushed, startFrame]
  split <;> rfl

theorem Timed.pushed {p : Packet β} (h : Timed p) (b : β) : Timed (p.pushed b) where
  ordered := by
    rw [Packet.pushed, startFrame]
    split <;> exact h.ordered.congr rfl
  latest := (writes_pushed p b).wrote.latest h.latest

/-- The comparison in `capture_sm` decides whether an update is due. -/
theorem beats_eq_due {p : Packet β} {b : β} (h : Timed p) (hf : Forward (p, b)) :
    p.beats b = dueBeats (p, b) := by
  rw [beats, dueBeats]
  by_cases he : p.endsHeader b = true
  · have hfwd : (p.pushed b).captureTs ≤ (p.pushed b).headerDone.captureTs := by
      rw [pushed_ts, ← captureSm_endsHeader he]
      exact hf
    have hoc := clocked_ordered (h.pushed b).ordered hfwd
    have hlc : Latest (p.pushed b).clocked := (wrote_clocked _).latest (h.pushed b).latest
    have hts : (p.pushed b).clocked.captureTs = (p.captureSm b).captureTs := by
      rw [clocked_ts, captureSm_endsHeader he]
    have hgap : castS64 ((p.pushed b).clocked.captureTs - (p.pushed b).clocked.captureLastTs) =
        p.silence b := by
      have hl : (p.pushed b).clocked.captureLastTs = lastWritten 0 (p.pushed b).clocked.out := hlc
      rw [castS64_gap hoc (headerClock_ts_lt _), gap, hts, hl, silence]
    rw [if_pos he, timeoutBeats, hgap, hts, clocked_enabled, pushed_enabled]
    refine if_congr ?_ rfl rfl
    exact ⟨fun hdue => ⟨he, hdue.2, hdue.1⟩, fun hdue => ⟨hdue.2.2, hdue.2.1⟩⟩
  · rw [if_neg he, if_neg fun hdue => he hdue.1]

theorem captureSm_beats {p : Packet β} {b : β} (h : Timed p) (hf : Forward (p, b)) :
    Wrote (dueBeats (p, b)) p (p.captureSm b) :=
  beats_eq_due h hf ▸ wrote_captureSm p b

theorem Timed.captureSm {p : Packet β} {b : β} (h : Timed p) (hf : Forward (p, b)) :
    Timed (p.captureSm b) :=
  ⟨h.ordered.captureSm hf, (wrote_captureSm p b).latest h.latest⟩

/-- One header with the gate open leaves a last record at most 2 s old. -/
theorem captureSm_within {p : Packet β} {b : β} (h : Timed p) (hf : Forward (p, b))
    (he : p.endsHeader b = true) (hen : (p.captureSm b).captureEnabled = true) :
    0 ≤ (p.captureSm b).gap ∧ (p.captureSm b).gap ≤ updateInterval := by
  refine ⟨gap_nonneg (h.captureSm hf).ordered, ?_⟩
  have hfwd : (p.pushed b).captureTs ≤ (p.pushed b).headerDone.captureTs := by
    rw [pushed_ts, ← captureSm_endsHeader he]
    exact hf
  have hfresh := headerDone_fresh (h.pushed b).latest (h.pushed b).ordered hfwd
  rw [captureSm_endsHeader he] at hen ⊢
  exact hfresh hen

/-- A due update is more than 2 s younger than what was written before
its frame: nothing there is younger than the last record. -/
theorem dueBeats_spaced {p : Packet β} {b : β} (h : Timed p) (hf : Forward (p, b)) {t : UInt64}
    (ht : t ∈ dueBeats (p, b)) {r : Record β} (hr : r ∈ p.out) :
    (r.ts.toNat : Int) + updateInterval < t.toNat := by
  rw [dueBeats] at ht
  split at ht
  · rename_i hdue
    rw [List.mem_singleton] at ht
    subst ht
    have hfwd : (p.pushed b).captureTs ≤ (p.pushed b).headerDone.captureTs := by
      rw [pushed_ts, ← captureSm_endsHeader hdue.1]
      exact hf
    have hoc := clocked_ordered (h.pushed b).ordered hfwd
    have hw : Wrote [] p (p.pushed b).clocked := (writes_pushed p b).wrote.after (wrote_clocked _)
    have hlc : (p.pushed b).clocked.captureLastTs = lastWritten 0 (p.pushed b).clocked.out :=
      hw.latest h.latest
    have hle := UInt64.le_iff_toNat_le.mp (hoc.written r (hw.mem hr))
    have hlate : updateInterval < p.silence b := hdue.2.2
    rw [silence, ← hlc] at hlate
    show (r.ts.toNat : Int) + updateInterval < ((p.captureSm b).captureTs.toNat : Int)
    omega
  · exact (List.not_mem_nil ht).elim

/-! ## Runs -/

/-- The calls that process no byte write no update. -/
theorem Timed.call {p : Packet β} (h : Timed p) {c : PacketCall β} (hc : c ≠ .announce)
    (hfeed : ∀ data, c ≠ .feed data) : Wrote [] p (p.call c) ∧ Timed (p.call c) := by
  have hinfo : ∀ m, Other m → Wrote [] p (captureInfo p p.captureTs m) ∧
      Timed (captureInfo p p.captureTs m) := by
    intro m hm
    have hw := (writes_captureInfo hm p p.captureTs).wrote
    exact ⟨hw, h.ordered.captureInfo m, hw.latest h.latest⟩
  cases c with
  | announce => exact absurd rfl hc
  | feed data => exact absurd rfl (hfeed data)
  | rsync => exact hinfo .linkLoss trivial
  | info msg => exact hinfo (.plain msg) trivial
  | stopInfo reason => exact hinfo (.stopped reason) trivial

theorem feed_beats {data : List β} {p : Packet β} (h : Timed p)
    (hf : ∀ s ∈ p.feedSteps data, Forward s) :
    (p.feed data).out.filterMap Record.beat? =
      p.out.filterMap Record.beat? ++ (p.feedSteps data).flatMap dueBeats := by
  induction data generalizing p with
  | nil => rw [feed_nil, feedSteps, List.flatMap_nil, List.append_nil]
  | cons b bs ih =>
      rw [feedSteps] at hf ⊢
      by_cases hd : p.done = true
      · rw [feed_of_done hd, if_pos hd, List.flatMap_nil, List.append_nil]
      · have hd' : p.done = false := by simpa using hd
        rw [if_neg hd] at hf ⊢
        have hfirst := hf _ List.mem_cons_self
        rw [feed_cons hd', ih (h.captureSm hfirst) fun s hs => hf s (List.mem_cons_of_mem _ hs),
          (captureSm_beats h hfirst).beats_eq, List.flatMap_cons, List.append_assoc]

theorem Timed.feed {data : List β} {p : Packet β} (h : Timed p)
    (hf : ∀ s ∈ p.feedSteps data, Forward s) :
    (∀ s ∈ p.feedSteps data, s.1.done = false ∧ Timed s.1) ∧ Timed (p.feed data) :=
  feed_steps_induction (fun _ _ _ hfwd ht => ht.captureSm hfwd) h hf

/-- The updates written are the ones due, whatever is called. -/
theorem run_beats {calls : List (PacketCall β)} {p : Packet β} (h : Timed p)
    (hc : .announce ∉ calls) (hf : ∀ s ∈ p.runSteps calls, Forward s) :
    (p.run calls).out.filterMap Record.beat? =
      p.out.filterMap Record.beat? ++ (p.runSteps calls).flatMap dueBeats := by
  induction calls generalizing p with
  | nil => exact (List.append_nil _).symm
  | cons c cs ih =>
      have hne : c ≠ .announce := fun he => hc (he ▸ List.mem_cons_self)
      have hcs : .announce ∉ cs := fun hm => hc (List.mem_cons_of_mem c hm)
      have hlater : ∀ s ∈ (p.call c).runSteps cs, Forward s :=
        fun s hs => hf s (List.mem_append_right _ hs)
      rw [runSteps, List.flatMap_append, ← List.append_assoc]
      by_cases hfeed : ∃ data, c = .feed data
      · obtain ⟨data, rfl⟩ := hfeed
        have hfirst : ∀ s ∈ p.feedSteps data, Forward s :=
          fun s hs => hf s (List.mem_append_left _ hs)
        have hnext := ih (h.feed hfirst).2 hcs hlater
        rw [feed_beats h hfirst] at hnext
        exact hnext
      · have hother : ∀ data, c ≠ .feed data := fun data he => hfeed ⟨data, he⟩
        obtain ⟨hw, ht⟩ := h.call hne hother
        have hsteps : p.callSteps c = [] := by
          cases c with
          | feed data => exact absurd rfl (hother data)
          | _ => rfl
        have hnext := ih ht hcs hlater
        rw [hw.beats_eq, List.append_nil] at hnext
        rw [hsteps, List.flatMap_nil, List.append_nil]
        exact hnext

theorem timed_announce (opts : PacketOpts) : Timed (announce (new opts : Packet β)) where
  ordered := ordered_announce opts
  latest := by
    have hnew : Latest (new opts : Packet β) := rfl
    exact (writes_announce _).wrote.latest hnew

/-- **The heartbeat law**: in a session whose decoded clock never goes
back, every header with the gate open leaves a last record at most 2 s
old, every "Periodic update" is more than 2 s younger than all that was
written before its frame, and there is exactly one for each header that
ends more than 2 s of silence, however many status frames arrive. -/
theorem run_heartbeat (opts : PacketOpts) (calls : List (PacketCall UInt8))
    (hc : .announce ∉ calls) (hts : ((announce (new opts)).runTs calls).Pairwise (· ≤ ·)) :
    Heartbeat (announce (new opts)) calls := by
  have hfwd : ∀ s ∈ (announce (new opts)).runSteps calls, Forward s :=
    fun s hs => (announced_steps_ordered hc hts s hs).2
  have htimed := run_steps_induction (I := Timed) (Q := Forward) (C := (· ≠ .announce))
    (fun p b _ hf ht => ht.captureSm hf) (fun p c hne hfeed ht => (ht.call hne hfeed).2)
    (timed_announce opts) (fun c hm he => hc (he ▸ hm)) hfwd
  exact
    { within := fun s hs he hen => captureSm_within (htimed.1 s hs).2 (hfwd s hs) he hen
      spaced := fun s hs t ht r hr => dueBeats_spaced (htimed.1 s hs).2 (hfwd s hs) ht hr
      exact := run_beats (timed_announce opts) hc hfwd }

/-- A trigger that opens the gate in the first frame, a link loss, and a
data frame with a line state pending behind a timestamp overflow. -/
def quietSession : List (PacketCall UInt8) :=
  [.feed [0x00, 0, 0, 0x20], .feed [0x50, 0, 0, 0x23], .rsync, .feed [0x10, 0, 9, 0x20],
    .feed [0xd0, 0, 1, 0, 8, 0, 0, 0x69]]

/-- The options of a capture that waits for a high trigger. -/
def triggerOpts : PacketOpts := { foldOpts with captureTrigger := .high }

theorem run_heartbeat_quietSession :
    .announce ∉ quietSession ∧
      ((announce (new triggerOpts)).runTs quietSession).Pairwise (· ≤ ·) ∧
      Heartbeat (announce (new triggerOpts)) quietSession :=
  have hc : .announce ∉ quietSession := by simp [quietSession]
  have hts : ((announce (new triggerOpts)).runTs quietSession).Pairwise (· ≤ ·) := by
    decide +kernel
  ⟨hc, hts, run_heartbeat triggerOpts quietSession hc hts⟩

end UsbSniffer.Packet
