import UsbSniffer.Packet.Boundary
import UsbSniffer.Packet.Limit
import UsbSniffer.Packet.Steps

/-!
# How long a fold batch gets

`capture_fold_count` is compared with its limit by `==`, and the limit is
8000 for a SOF at High-Speed and 1000 for everything else. A batch that
has passed 1000 at High-Speed is not stopped by a later event whose limit
is 1000: the count goes on, past both limits, and nothing is written.
`run_batchBounded_iff` says that this is all there is to it.
-/

namespace UsbSniffer

/-- The running count, and how many frames the buffer holds. -/
structure Batch where
  count : Nat
  held : Nat

/-- What a foldable event does to the batch it finds. -/
def Batch.fold (b : Batch) (limit : Nat) : Batch :=
  if b.held = 0 then ⟨b.count, 1⟩
  else if b.count + 1 = limit then ⟨0, 1⟩
  else ⟨b.count + 1, 1⟩

/-- **The count ends up below the limit exactly if it was below it.** -/
theorem Batch.fold_lt_iff (b : Batch) {limit : Nat} (hpos : 0 < limit) :
    (b.fold limit).count < limit ↔ b.count < limit := by
  rw [Batch.fold]
  by_cases h0 : b.held = 0
  · rw [if_pos h0]
  · rw [if_neg h0]
    by_cases hl : b.count + 1 = limit
    · rw [if_pos hl]
      show 0 < limit ↔ b.count < limit
      omega
    · rw [if_neg hl]
      show b.count + 1 < limit ↔ b.count < limit
      omega

namespace Packet

variable {β : Type}

def batch (p : Packet β) : Batch := ⟨p.captureFoldCount, p.captureFoldBuf.length⟩

theorem batch_of_ledger {p p' : Packet β} (h : p'.ledger = p.ledger) : p'.batch = p.batch := by
  have hcount : p'.captureFoldCount = p.captureFoldCount := congrArg Ledger.count h
  have hheld := congrArg (fun l => l.buffer.length) h
  simp only [ledger, List.length_map] at hheld
  rw [batch, batch, hcount, hheld]

/-! ## One event -/

theorem batch_stopFolding (p : Packet β) : p.stopFolding.batch = ⟨0, 0⟩ := by
  have hl := ledger_stopFolding p
  have hcount : p.stopFolding.captureFoldCount = 0 := congrArg Ledger.count hl
  have hheld := congrArg (fun l => l.buffer.length) hl
  simp only [ledger, List.length_map, Ledger.flush, List.length_nil] at hheld
  rw [batch, hcount, hheld]

theorem batch_countGroup (p : Packet β) (limit : Nat) :
    (p.countGroup limit).batch =
      if p.captureFoldCount + 1 = limit then ⟨0, 0⟩ else ⟨p.captureFoldCount + 1, 0⟩ := by
  by_cases hl : p.captureFoldCount + 1 = limit
  · rw [if_pos hl, countGroup, if_pos (show p.dropGroup.captureFoldCount = limit from hl)]
    exact batch_stopFolding p.dropGroup
  · rw [if_neg hl, countGroup, if_neg (show ¬ p.dropGroup.captureFoldCount = limit from hl)]
    rfl

/-- One more frame in the buffer. -/
theorem batch_hold (p : Packet β) (f : CaptureFrame β) :
    batch { p with captureFoldBuf := p.captureFoldBuf ++ [f] } =
      ⟨p.batch.count, p.batch.held + 1⟩ := by
  rw [batch, batch, List.length_append]
  rfl

theorem batch_countGroup_hold (p : Packet β) (limit : Nat) (f : CaptureFrame β)
    (hheld : p.captureFoldBuf.length ≠ 0) :
    batch { p.countGroup limit with captureFoldBuf := (p.countGroup limit).captureFoldBuf ++ [f] } =
      p.batch.fold limit := by
  have hheld' : p.batch.held ≠ 0 := hheld
  rw [batch_hold, batch_countGroup, Batch.fold, if_neg hheld']
  show Batch.mk _ _ = if p.captureFoldCount + 1 = limit then _ else _
  split <;> rfl

/-- A keep-alive, with the gate open. -/
theorem keepaliveEvent_batch {p : Packet β} (hf : p.opts.foldEmpty = true)
    (he : p.captureEnabled = true) (ts : UInt64) (delta : Int) :
    (p.keepaliveEvent ts delta).batch = p.batch.fold foldLimitLsFs := by
  rw [keepaliveEvent, if_neg (by simp [he]), batch_of_ledger (ledger_checkCaptureLimit _),
    if_neg (by simp [hf])]
  by_cases hb : p.captureFoldBuf.length ≠ 0
  · rw [if_pos hb]
    exact batch_countGroup_hold p foldLimitLsFs _ hb
  · have h0 : p.batch.held = 0 := not_not.mp hb
    rw [if_neg hb, foldKeepalive, batch_hold, Batch.fold, if_pos h0, h0]

/-- The keep-alive in a change of the line state. -/
theorem statusLs_batch {p : Packet β} (hf : p.opts.foldEmpty = true) {ls : Int}
    {e : CaptureEvent β} (he : e ∈ p.statusLsEvents ls) :
    e = .keepalive ∧ (p.statusLs ls).batch = p.batch.fold foldLimitLsFs := by
  rw [statusLsEvents] at he
  rw [statusLs]
  split at he
  · exact (List.not_mem_nil he).elim
  · rename_i hls
    rw [if_neg hls]
    rw [lineChangeEvents] at he
    rw [lineChange]
    split at he
    · rename_i hk
      rw [if_pos hk]
      rw [keepaliveEvents] at he
      split at he
      · rename_i hen
        exact ⟨List.mem_singleton.mp he, keepaliveEvent_batch
          (p := { p with captureLs := ls, captureSavedLs := lsInvalid }) hf hen _ _⟩
      · exact (List.not_mem_nil he).elim
    · exact (List.not_mem_nil he).elim

theorem statusEvent_batch {p : Packet β} (hf : p.opts.foldEmpty = true) {ls vbus trigger : Int}
    {speed : CaptureSpeed} {e : CaptureEvent β} (he : e ∈ p.statusEvents ls vbus trigger speed) :
    e = .keepalive ∧
      (p.statusEvent ls vbus trigger speed).batch = p.batch.fold foldLimitLsFs := by
  have hsig := ((signalled_statusTrigger p trigger).trans (signalled_statusVbus _ vbus)).trans
    (signalled_statusSpeed _ speed)
  have hledger : (((p.statusTrigger trigger).statusVbus vbus).statusSpeed speed).ledger =
      p.ledger := by
    rw [ledger_statusSpeed, ledger_statusVbus, ledger_statusTrigger]
  rw [statusEvent, ← batch_of_ledger hledger]
  exact statusLs_batch (hsig.foldEmpty.trans hf) he

/-- The batch an event finds, once its own flush is done. -/
def found (p : Packet β) (e : CaptureEvent β) : Batch :=
  if e.breaks p.captureFoldBuf.length then ⟨0, 0⟩ else p.batch

theorem found_count_le (p : Packet β) (e : CaptureEvent β) :
    (p.found e).count ≤ p.captureFoldCount := by
  rw [found]
  split
  · exact Nat.zero_le _
  · exact Nat.le_refl _

/-- `data_event` flushes what the frame does not go with. -/
theorem dataPrepare_batch (p : Packet β) [ByteLike β] :
    p.dataPrepare.batch = p.found p.frameEvent := by
  have hl := ledger_dataPrepare p
  rw [found]
  split at hl
  · rename_i hbreaks
    rw [if_pos hbreaks, ← batch_stopFolding p]
    exact batch_of_ledger (hl.trans (ledger_stopFolding p).symm)
  · rename_i hbreaks
    rw [if_neg hbreaks]
    exact batch_of_ledger hl

theorem sofLimit_congr {p p' : Packet β} (ho : p'.opts = p.opts)
    (hs : p'.captureSpeedIn = p.captureSpeedIn) : p'.sofLimit = p.sofLimit := by
  rw [sofLimit, sofLimit, effectiveSpeed, effectiveSpeed, ho, hs]

/-- The limit in effect for an event: 8000 for a SOF at High-Speed. -/
def limitFor (p : Packet β) : CaptureEvent β → Nat
  | .packet _ _ _ _ => p.sofLimit
  | .keepalive => foldLimitLsFs

theorem limitFor_cases (p : Packet β) (e : CaptureEvent β) :
    p.limitFor e = foldLimitLsFs ∨ p.limitFor e = foldLimitHs := by
  cases e with
  | packet data overflow dataError allowSof =>
      rw [limitFor, sofLimit]
      split
      · exact Or.inr rfl
      · exact Or.inl rfl
  | keepalive => exact Or.inl rfl

theorem limitFor_pos (p : Packet β) (e : CaptureEvent β) : 0 < p.limitFor e := by
  rcases p.limitFor_cases e with hl | hl
  · rw [hl, foldLimitLsFs]
    omega
  · rw [hl, foldLimitHs]
    omega

theorem limitFor_le (p : Packet β) (e : CaptureEvent β) : p.limitFor e ≤ foldLimitHs := by
  rcases p.limitFor_cases e with hl | hl
  · rw [hl, foldLimitLsFs, foldLimitHs]
    omega
  · exact Nat.le_of_eq hl

/-- No "Folded" record counts more than 8000 frames. -/
def FoldedLe (p : Packet β) : Prop :=
  ∀ ts n, .info ts (.folded n) ∈ p.out → n ≤ foldLimitHs

theorem Wrote.folded_le {beats : List UInt64} {p p' : Packet β} (h : Wrote beats p p')
    (hp : FoldedLe p) (hsum : (p'.out.map Record.foldedFrames).sum ≤
      (p.out.map Record.foldedFrames).sum + foldLimitHs) : FoldedLe p' := by
  obtain ⟨w, ho, -, -⟩ := h
  intro ts n hmem
  rw [ho] at hmem hsum
  rw [List.map_append, List.sum_append] at hsum
  rcases List.mem_append.mp hmem with hmem | hmem
  · exact hp ts n hmem
  · have hle : n ≤ (w.map Record.foldedFrames).sum :=
      List.le_sum_of_mem (List.mem_map.mpr ⟨.info ts (.folded n), hmem, rfl⟩)
    omega

theorem effectiveSpeed_of_auto {p : Packet β} (h : p.opts.captureSpeed = .reset) :
    p.effectiveSpeed = p.captureSpeedIn := by
  rw [effectiveSpeed, if_neg fun hn => hn.2.1 h]

theorem stopFolding_folded {p : Packet β} (h : 0 < p.captureFoldCount) :
    ∃ ts, .info ts (.folded p.captureFoldCount) ∈ p.stopFolding.out := by
  have hne : p.captureFoldCount ≠ 0 := Nat.ne_of_gt h
  refine ⟨p.flushBuf.captureTs, ?_⟩
  rw [stopFolding, if_neg fun h0 => hne h0.1, noteFolded, if_neg hne, captureInfo_eq]
  refine List.mem_append_right _ ?_
  rw [List.map_append]
  exact List.mem_append_right _ List.mem_cons_self

variable [ByteLike β]

/-- A foldable SOF, with the gate open. -/
theorem dataEvent_batch {p : Packet β} (hf : p.opts.foldEmpty = true)
    (he : p.captureEnabled = true) (hsize : 0 < p.captureSize)
    (hs : p.frameEvent.starts = true) :
    p.dataEvent.batch = (p.found p.frameEvent).fold p.sofLimit := by
  have hem := emitted_dataPrepare p
  have hsof : p.dataPrepare.sofLimit = p.sofLimit := by rw [sofLimit, sofLimit, hem.effectiveSpeed]
  have hs' : p.dataPrepare.frameEvent.starts = true := hem.frameEvent ▸ hs
  rw [frameEvent, CaptureEvent.starts, pidOf_payload (hem.size ▸ hsize), Option.some_beq_some,
    Bool.and_eq_true, Bool.and_eq_true, beq_iff_eq] at hs'
  obtain ⟨⟨herr, hallow⟩, hpid⟩ := hs'
  have herr' : p.dataPrepare.frameError = false := by simpa using herr
  have hf' : p.dataPrepare.opts.foldEmpty = true := hem.foldEmpty.trans hf
  have hnot : ¬(p.dataPrepare.framePid = pidIn ∨ p.dataPrepare.framePid = pidNak) := by
    rw [hpid]
    decide
  rw [dataEvent, if_neg (by simp [he]), batch_of_ledger (ledger_checkCaptureLimit _),
    ← dataPrepare_batch, dataWrite, if_neg (by simp [herr', hf'])]
  by_cases hb : p.dataPrepare.captureFoldBuf.length ≠ 0
  · rw [if_pos hb, if_neg hnot, if_pos ⟨hpid, hallow⟩, hsof]
    exact batch_countGroup_hold p.dataPrepare p.sofLimit _ hb
  · have h0 : p.dataPrepare.batch.held = 0 := not_not.mp hb
    rw [if_neg hb, if_pos ⟨hpid, hallow⟩, foldPacket, batch_hold, Batch.fold, if_pos h0, h0]

/-! ## One byte -/

/-- The foldable event that the byte `b` brings, if it does. -/
def foldable (p : Packet β) (b : β) : List (CaptureEvent β) :=
  (p.captureSmEvents b).filter CaptureEvent.starts

theorem headerCommon_batch {p : Packet β} (hh : p.captureHeader = true) :
    p.headerCommon.batch = p.batch :=
  batch_of_ledger (headerCommon_same p hh).1

/-- **A foldable event folds the batch it finds** against its limit. -/
theorem captureSm_batch {p : Packet β} {evs : List (CaptureEvent β)} (h : Kept p evs) {b : β}
    {e : CaptureEvent β} (he : e ∈ p.foldable b) :
    (p.captureSm b).batch = (p.found e).fold (p.limitFor e) := by
  obtain ⟨hev, hs⟩ := List.mem_filter.mp he
  have hpush : ((p.startFrame b).storeByte b).batch = p.batch ∧
      ((p.startFrame b).storeByte b).opts = p.opts ∧
      ((p.startFrame b).storeByte b).captureSpeedIn = p.captureSpeedIn ∧
      (((p.startFrame b).storeByte b).captureHeader = false →
        0 < ((p.startFrame b).storeByte b).captureSize) := by
    rw [startFrame]
    split
    · rename_i hst
      rw [Bool.and_eq_true] at hst
      refine ⟨rfl, rfl, rfl, fun hfalse => ?_⟩
      have hh : p.captureHeader = false := hfalse
      rw [hh] at hst
      cases hst.1
    · exact ⟨rfl, rfl, rfl, h.waiting⟩
  rw [captureSmEvents] at hev
  rw [captureSm]
  generalize (p.startFrame b).storeByte b = q at hev hpush ⊢
  obtain ⟨hbatch, hopts, hspeed, hwait⟩ := hpush
  have hf : q.opts.foldEmpty = true := hopts ▸ h.folding
  rw [frameStepEvents] at hev
  rw [frameStep]
  split at hev
  · exact (List.not_mem_nil hev).elim
  · rename_i hfull
    rw [if_neg hfull]
    split at hev
    · rename_i hh
      rw [if_pos hh]
      rw [headerDoneEvents] at hev
      split at hev
      · rename_i hst
        have hfc : q.headerCommon.opts.foldEmpty = true := by
          rw [(headerCommon_same q hh).2.1]
          exact hf
        obtain ⟨rfl, hres⟩ := statusEvent_batch hfc hev
        rw [headerDone, if_pos hst]
        have hsame : q.headerCommon.statusHeader.batch = q.headerCommon.statusOf.batch := rfl
        rw [hsame, statusOf, hres, headerCommon_batch hh, hbatch]
        rfl
      · exact (List.not_mem_nil hev).elim
    · rename_i hh
      have hh' : q.captureHeader = false := by simpa using hh
      rw [if_neg hh]
      rw [payloadDoneEvents, dataEvents] at hev
      split at hev
      · rename_i hen
        rw [List.mem_singleton] at hev
        subst hev
        have hres := dataEvent_batch (p := { q with captureHeader := true }) hf hen (hwait hh') hs
        have hsame : q.payloadDone.batch = (dataEvent { q with captureHeader := true }).batch := rfl
        have hlimit : sofLimit { q with captureHeader := true } = p.sofLimit :=
          sofLimit_congr hopts hspeed
        have hfound : found { q with captureHeader := true }
            (frameEvent { q with captureHeader := true }) =
              p.found (frameEvent { q with captureHeader := true }) := by
          have hqb : batch { q with captureHeader := true } = p.batch := hbatch
          have hlen : q.captureFoldBuf.length = p.captureFoldBuf.length := congrArg Batch.held hbatch
          rw [found, found, hqb]
          simp only [hlen]
        rw [hsame, hres, hfound, hlimit]
        rfl
      · exact (List.not_mem_nil hev).elim

/-- The byte's foldable event leaves a count below its limit exactly if it
finds one below it. -/
theorem captureSm_count_lt_iff {p : Packet β} {evs : List (CaptureEvent β)} (h : Kept p evs)
    {b : β} {e : CaptureEvent β} (he : e ∈ p.foldable b) :
    (p.captureSm b).captureFoldCount < p.limitFor e ↔ (p.found e).count < p.limitFor e := by
  have hb := congrArg Batch.count (captureSm_batch h he)
  have hcount : (p.captureSm b).captureFoldCount = ((p.found e).fold (p.limitFor e)).count := hb
  rw [hcount]
  exact Batch.fold_lt_iff _ (p.limitFor_pos e)

/-! ## What a byte adds to the "Folded" records

The account bounds it: a byte deletes one group at most, so what it writes
into records comes out of the count it meets. -/

/-- One event deletes one group at most, and none if it opens none. -/
theorem deleted_step_le (a : Account β) (e : CaptureEvent β) :
    (a.step e).deleted ≤ a.deleted + if e.starts then 1 else 0 := by
  have hp : (a.prepare e).deleted = a.deleted := by
    rw [Account.prepare]
    split
    · exact Account.deleted_flush a
    · rfl
  rw [Account.step, Account.place, ← hp]
  by_cases hs : e.starts = true
  · rw [if_pos hs, if_pos hs, Account.hold, Account.drop]
    split
    · exact Nat.le_succ _
    · rw [Account.deleted, List.countP_append]
      exact Nat.le_refl _
  · rw [if_neg hs, if_neg hs]
    split
    · exact Nat.le_refl _
    · have hw : ((a.prepare e).flush.write e).deleted = (a.prepare e).flush.deleted := by
        rw [Account.deleted, Account.write, List.countP_append]
        rfl
      rw [hw, Account.deleted_flush]
      exact Nat.le_refl _

theorem deleted_steps_le (evs : List (CaptureEvent β)) (a : Account β) :
    (evs.foldl Account.step a).deleted ≤ a.deleted + (evs.filter CaptureEvent.starts).length := by
  induction evs generalizing a with
  | nil => exact Nat.le_refl _
  | cons e es ih =>
      have hone := deleted_step_le a e
      have hrest := ih (a.step e)
      rw [List.foldl_cons]
      rw [List.filter_cons]
      split
      · rename_i hs
        rw [if_pos hs] at hone
        rw [List.length_cons]
        omega
      · rename_i hs
        rw [if_neg hs] at hone
        omega

/-- Folded groups, in records and in the running count. -/
theorem captureSm_folded_le {p : Packet β} {evs : List (CaptureEvent β)} (h : Kept p evs) (b : β) :
    ((p.captureSm b).out.map Record.foldedFrames).sum + (p.captureSm b).captureFoldCount ≤
      (p.out.map Record.foldedFrames).sum + p.captureFoldCount + (p.foldable b).length := by
  have hbefore := h.settled.counted
  have hafter := (h.captureSm b).settled.counted
  rw [account_append] at hafter
  have hle := deleted_steps_le (p.captureSmEvents b) (account evs)
  rw [← hbefore, ← hafter] at hle
  exact hle

/-! ## Runs -/

/-- What the fold limits promise for a session. -/
structure BatchBounded (opts : PacketOpts) (calls : List (PacketCall β)) : Prop where
  /-- Each foldable event leaves the count below the limit in effect for
  it. -/
  count_lt : ∀ s ∈ (new opts : Packet β).runSteps calls, ∀ e ∈ s.1.foldable s.2,
    (s.1.captureSm s.2).captureFoldCount < s.1.limitFor e
  folded_le : FoldedLe ((new opts : Packet β).run calls)

/-- No event whose limit is 1000 finds a batch of 1000 or more. -/
def FindsShort (s : Packet β × β) : Prop :=
  ∀ e ∈ s.1.foldable s.2, s.1.limitFor e = foldLimitLsFs → (s.1.found e).count < foldLimitLsFs

/-- What holds between the bytes of a session whose events find short
batches. -/
structure Bounded (p : Packet β) : Prop where
  kept : ∃ evs, Kept p evs
  count_lt : p.captureFoldCount < foldLimitHs
  folded_le : FoldedLe p

/-- The event finds a count below its own limit: below 1000 because the
batch is short, below 8000 because every batch is. -/
theorem Bounded.found_lt {p : Packet β} (h : Bounded p) {b : β} (hs : FindsShort (p, b))
    {e : CaptureEvent β} (he : e ∈ p.foldable b) : (p.found e).count < p.limitFor e := by
  rcases p.limitFor_cases e with hl | hl
  · rw [hl]
    exact hs e he hl
  · rw [hl]
    exact Nat.lt_of_le_of_lt (p.found_count_le e) h.count_lt

theorem Bounded.captureSm {p : Packet β} (h : Bounded p) {b : β} (hs : FindsShort (p, b)) :
    Bounded (p.captureSm b) := by
  obtain ⟨evs, hk⟩ := h.kept
  have hle := captureSm_folded_le hk b
  have hlt := h.count_lt
  have hone : (p.foldable b).length ≤ 1 :=
    Nat.le_trans (List.length_filter_le _ _) (p.captureSmEvents_length_le b)
  have hw := wrote_captureSm p b
  refine ⟨⟨_, hk.captureSm b⟩, ?_, hw.folded_le h.folded_le (by omega)⟩
  cases hf : p.foldable b with
  | nil =>
      -- no group is closed, so the count does not grow
      obtain ⟨w, ho, -, -⟩ := hw
      rw [hf, ho, List.map_append, List.sum_append, List.length_nil] at hle
      omega
  | cons e es =>
      have he : e ∈ p.foldable b := hf ▸ List.mem_cons_self
      exact Nat.lt_of_lt_of_le ((captureSm_count_lt_iff hk he).mpr (h.found_lt hs he))
        (p.limitFor_le e)

/-- A text record other than "Folded" keeps the bounds. -/
theorem Bounded.captureInfo {p : Packet β} (h : Bounded p) {m : Msg} (hm : Aside m)
    (ts : UInt64) : Bounded (captureInfo p ts m) := by
  obtain ⟨evs, hk⟩ := h.kept
  refine ⟨⟨evs, hk.captureInfo hm ts⟩, ?_, ?_⟩
  · rw [captureInfo_eq]
    exact h.count_lt
  · have hsum : ((Packet.captureInfo p ts m).out.map Record.foldedFrames).sum =
        (p.out.map Record.foldedFrames).sum := congrArg Ledger.folded (ledger_captureInfo hm p ts)
    have hmem : ∀ r ∈ (Packet.captureInfo p ts m).out, r ∈ p.out ∨ r.foldedFrames = 0 := by
      rw [captureInfo_eq]
      intro r hr
      rcases List.mem_append.mp hr with hr | hr
      · exact Or.inl hr
      · right
        obtain ⟨x, hx, rfl⟩ := List.mem_map.mp hr
        rcases List.mem_append.mp hx with hx | hx
        · exact foldedFrames_of_aside (pendingRecords_kind aside_lineClosed p x hx) _
        · rw [List.mem_singleton.mp hx]
          exact foldedFrames_of_aside hm _
    intro ts' n hr
    rcases hmem _ hr with hr | hr
    · exact h.folded_le ts' n hr
    · rw [show n = 0 from hr]
      exact Nat.zero_le _

theorem Bounded.call {p : Packet β} (h : Bounded p) (c : PacketCall β)
    (hfeed : ∀ data, c ≠ .feed data) : Bounded (p.call c) := by
  cases c with
  | feed data => exact absurd rfl (hfeed data)
  | announce =>
      obtain ⟨evs, hk⟩ := h.kept
      have hd : Bounded { p with done := false } :=
        ⟨⟨evs, hk.folding, hk.settled, hk.waiting⟩, h.count_lt, h.folded_le⟩
      rw [Packet.call, announce]
      split
      · have hi := hd.captureInfo (m := .startingCapture) trivial 0
        obtain ⟨evs', hk'⟩ := hi.kept
        exact ⟨⟨evs', hk'.folding, hk'.settled, hk'.waiting⟩, hi.count_lt, hi.folded_le⟩
      · exact hd.captureInfo (m := .waitingForTrigger) trivial _
  | rsync => exact h.captureInfo (m := .linkLoss) trivial _
  | info msg => exact h.captureInfo (m := .plain msg) trivial _
  | stopInfo reason => exact h.captureInfo (m := .stopped reason) trivial _

theorem bounded_new {opts : PacketOpts} (hf : opts.foldEmpty = true) :
    Bounded (new opts : Packet β) where
  kept := ⟨[], kept_new hf⟩
  count_lt := Nat.succ_pos 7999
  folded_le := fun _ _ hr => absurd hr List.not_mem_nil

/-- **The fold limits hold exactly as long as no event whose limit is
1000 finds a batch of 1000 or more**, whatever is fed and called. -/
theorem run_batchBounded_iff (opts : PacketOpts) (hf : opts.foldEmpty = true)
    (calls : List (PacketCall UInt8)) :
    BatchBounded opts calls ↔ ∀ s ∈ (new opts : Packet UInt8).runSteps calls, FindsShort s := by
  constructor
  · intro h s hs e he hl
    have hkept := run_steps_induction (I := fun p => ∃ evs, Kept p evs) (Q := fun _ => True)
      (C := fun _ => True) (fun p b _ _ hk => hk.elim fun evs hk => ⟨_, hk.captureSm b⟩)
      (fun p c _ _ hk => hk.elim fun evs hk => ⟨_, hk.call c⟩)
      ⟨[], kept_new hf⟩ (fun c (_ : c ∈ calls) => trivial) (fun _ _ => trivial)
    obtain ⟨evs, hk⟩ := (hkept.1 s hs).2
    have hlt := (captureSm_count_lt_iff hk he).mp (h.count_lt s hs e he)
    rwa [hl] at hlt
  · intro h
    have hsteps := run_steps_induction (I := Bounded) (Q := FindsShort) (C := fun _ => True)
      (fun p b _ hs hb => hb.captureSm hs) (fun p c _ hfeed hb => hb.call c hfeed)
      (bounded_new hf) (fun _ _ => trivial) h
    refine ⟨fun s hs e he => ?_, hsteps.2.folded_le⟩
    have hb := (hsteps.1 s hs).2
    obtain ⟨evs, hk⟩ := hb.kept
    exact (captureSm_count_lt_iff hk he).mpr (hb.found_lt (h s hs) he)

theorem run_batchBounded_iff_foldSession :
    foldOpts.foldEmpty = true ∧
      (BatchBounded foldOpts foldSession ↔
        ∀ s ∈ (new foldOpts : Packet UInt8).runSteps foldSession, FindsShort s) :=
  ⟨rfl, run_batchBounded_iff foldOpts rfl foldSession⟩

/-! ## A batch that is not stopped

SOFs at one speed, a change of the speed, and SOFs again: the count is
wherever the second kind of SOF finds it, and from 1000 on it meets no
limit. -/

/-- A SOF without error. -/
def sofPacket : Frame := .data ⟨false, 0, by decide⟩ 0 0 [0xa5] (by decide)

/-- A packet that cannot be folded. -/
def outPacket : Frame := .data ⟨false, 0, by decide⟩ 0 0 [0xe1] (by decide)

/-- A status frame with nothing but a speed. -/
def speedFrame (flags : UInt8) : Frame := .status ⟨false, 0, by decide⟩ flags

/-- At a boundary of a capture that folds, with a batch of `k` groups and
one SOF held, on a bus where only the speed has been seen. -/
structure Batching (speed : CaptureSpeed) (toggle : Bool) (k : Nat) (p : Packet UInt8) : Prop where
  boundary : AtBoundary toggle p
  folding : p.opts.foldEmpty = true
  auto : p.opts.captureSpeed = .reset
  ls : p.captureLs = 0
  vbus : p.captureVbus = 0
  trigger : p.captureTriggerInput = 0
  speedIn : p.captureSpeedIn = some speed
  enabled : p.captureEnabled = true
  batch_eq : p.batch = ⟨k, 1⟩

/-- What an event leaves of the bus and the settings. -/
theorem Batching.of_emitted {speed : CaptureSpeed} {toggle : Bool} {k k' : Nat}
    {p s s' p' : Packet UInt8} (h : Batching speed toggle k p) {flags : UInt8} {body : List UInt8}
    (hr : Received toggle flags body p s) (hem : Emitted s s') (hb : AtBoundary (!toggle) p')
    (hp' : p' = { s' with captureDataPtr := 0 }) (hk : s'.batch = ⟨k', 1⟩) :
    Batching speed (!toggle) k' p' := by
  have hbus : s'.bus = p.bus := hem.bus_eq.trans hr.bus
  have hset : s'.settings = p.settings := by
    rw [hem.settings_eq, settings, settings, hr.opts]
  subst hp'
  exact
    { boundary := hb
      folding := (congrArg PacketOpts.foldEmpty hset).trans h.folding
      auto := (congrArg PacketOpts.captureSpeed hset).trans h.auto
      ls := (congrArg Bus.ls hbus).trans h.ls
      vbus := (congrArg Bus.vbus hbus).trans h.vbus
      trigger := (congrArg Bus.triggerInput hbus).trans h.trigger
      speedIn := (congrArg Bus.speedIn hbus).trans h.speedIn
      enabled := (congrArg Bus.enabled hbus).trans h.enabled
      batch_eq := hk }

/-- **One more SOF is one more group**, unless that is the limit. -/
theorem Batching.sof {speed : CaptureSpeed} {toggle : Bool} {k : Nat} {p : Packet UInt8}
    (h : Batching speed toggle k p) (hls : speed ≠ .ls)
    (hk : k + 1 ≠ if speed = .hs then foldLimitHs else foldLimitLsFs) :
    Batching speed (!toggle) (k + 1) (p.feed (sofPacket.encode toggle)) := by
  have hb := h.boundary.data (spells_encode toggle sofPacket)
  obtain ⟨s, hr, hfeed⟩ := h.boundary.feed_data (spells_encode toggle sofPacket)
  rw [if_neg (List.cons_ne_nil _ _)] at hfeed
  have hbody : ((sofPacket.encode toggle).drop dataHeaderSize : List UInt8) = [0xa5] := rfl
  rw [hbody] at hr
  refine h.of_emitted hr (emitted_dataEvent s) hb hfeed ?_
  have hf : s.opts.foldEmpty = true := by rw [hr.opts]; exact h.folding
  have he : s.captureEnabled = true := (congrArg Bus.enabled hr.bus).trans h.enabled
  have hspeed : s.effectiveSpeed = some speed := by
    rw [effectiveSpeed_of_auto (by rw [hr.opts]; exact h.auto)]
    exact (congrArg Bus.speedIn hr.bus).trans h.speedIn
  have hallow : s.allowSof = true := by
    rw [allowSof, hspeed]
    cases speed <;> first | exact absurd rfl hls | rfl
  have herr : s.frameError = false := by
    rw [frameError, hr.crcError, hr.dataError]
    rfl
  have hev : s.frameEvent = .packet [0xa5] false false true := by
    rw [frameEvent, hr.payload, hr.overflow, herr, hallow]
    rfl
  have hsbatch : s.batch = ⟨k, 1⟩ := by
    rw [← h.batch_eq, batch, batch, hr.foldBuf, hr.foldCount]
  have hfound : s.found s.frameEvent = ⟨k, 1⟩ := by
    have hlen : s.captureFoldBuf.length = 1 := congrArg Batch.held hsbatch
    rw [found, hev, hlen, if_neg (by decide), hsbatch]
  rw [dataEvent_batch hf he (by rw [hr.size]; decide) (by rw [hev]; decide), hfound, Batch.fold,
    if_neg (Nat.one_ne_zero), sofLimit, hspeed]
  have hlimit : (if some speed = some CaptureSpeed.hs then foldLimitHs else foldLimitLsFs) =
      if speed = .hs then foldLimitHs else foldLimitLsFs := by
    cases speed <;> rfl
  rw [hlimit, if_neg hk]

/-- SOFs that meet no limit. -/
theorem Batching.sofs {speed : CaptureSpeed} {toggle : Bool} {k : Nat} {p : Packet UInt8}
    (h : Batching speed toggle k p) (hls : speed ≠ .ls) (n : Nat)
    (hk : ∀ i < n, k + i + 1 ≠ if speed = .hs then foldLimitHs else foldLimitLsFs) :
    Batching speed (toggleAfter toggle (List.replicate n sofPacket)) (k + n)
      (p.feed (encodeFrames toggle (List.replicate n sofPacket))) := by
  induction n generalizing toggle k p with
  | zero =>
      rw [List.replicate_zero, encodeFrames, feed_nil]
      cases toggle <;> exact h
  | succ n ih =>
      have hone := h.sof hls (hk 0 (Nat.succ_pos n))
      rw [List.replicate_succ, encodeFrames, feed_append, toggleAfter_cons,
        show k + (n + 1) = k + 1 + n by omega]
      refine ih hone fun i hi => ?_
      have hnext := hk (i + 1) (by omega)
      rwa [show k + 1 + i + 1 = k + (i + 1) + 1 by omega]

/-- A change of the detected speed to Full-Speed leaves the batch as it
is. -/
theorem Batching.fullSpeed {speed : CaptureSpeed} {toggle : Bool} {k : Nat} {p : Packet UInt8}
    (h : Batching speed toggle k p) :
    Batching .fs (!toggle) k (p.feed ((speedFrame 0x40).encode toggle)) := by
  have hb := h.boundary.status (spells_encode toggle (speedFrame 0x40))
  obtain ⟨r, hfeed, -, -, h3, hopts, hbus, hbuf, hcount⟩ :=
    h.boundary.feed_status (spells_encode toggle (speedFrame 0x40))
  have hls : r.captureLs = 0 := (congrArg Bus.ls hbus).trans h.ls
  have hvbus : r.captureVbus = 0 := (congrArg Bus.vbus hbus).trans h.vbus
  have htrigger : r.captureTriggerInput = 0 := (congrArg Bus.triggerInput hbus).trans h.trigger
  have hevent : r.statusOf = r.statusSpeed .fs := by
    have h1 : r.statusTrigger 0 = r := by rw [statusTrigger, if_pos htrigger]
    have h2 : r.statusVbus 0 = r := by rw [statusVbus, if_pos hvbus]
    have h4 : (r.statusSpeed .fs).captureLs = 0 := by
      rw [statusSpeed, captureInfo_eq]
      split
      · exact hls
      · split <;> exact hls
    rw [statusOf, h3]
    show statusLs (statusSpeed (statusVbus (statusTrigger r 0) 0) .fs) 0 = _
    rw [h1, h2, statusLs, if_pos h4]
  have hsame : r.statusHeader = { r.statusSpeed .fs with captureDataPtr := 0 } := by
    rw [statusHeader, hevent]
  rw [hsame] at hfeed
  rw [hfeed] at hb ⊢
  have hspeed : (r.statusSpeed .fs).opts = r.opts ∧ (r.statusSpeed .fs).captureLs = r.captureLs ∧
      (r.statusSpeed .fs).captureVbus = r.captureVbus ∧
      (r.statusSpeed .fs).captureTriggerInput = r.captureTriggerInput ∧
      (r.statusSpeed .fs).captureSpeedIn = some .fs ∧
      (r.statusSpeed .fs).captureEnabled = r.captureEnabled := by
    rw [statusSpeed, captureInfo_eq]
    split
    · rename_i hfs
      exact ⟨rfl, rfl, rfl, rfl, hfs, rfl⟩
    · split <;> exact ⟨rfl, rfl, rfl, rfl, rfl, rfl⟩
  obtain ⟨ho, hl, hv, ht, hi, he⟩ := hspeed
  have hbatch : (r.statusSpeed .fs).batch = ⟨k, 1⟩ := by
    rw [batch_of_ledger (ledger_statusSpeed r .fs), ← h.batch_eq, batch, batch, hbuf, hcount]
  exact
    { boundary := hb
      folding := by
        show (r.statusSpeed .fs).opts.foldEmpty = true
        rw [ho, hopts]
        exact h.folding
      auto := by
        show (r.statusSpeed .fs).opts.captureSpeed = .reset
        rw [ho, hopts]
        exact h.auto
      ls := hl.trans hls
      vbus := hv.trans hvbus
      trigger := ht.trans htrigger
      speedIn := hi
      enabled := he.trans ((congrArg Bus.enabled hbus).trans h.enabled)
      batch_eq := hbatch }

/-- A packet that cannot be folded writes the count of the batch. -/
theorem Batching.out {speed : CaptureSpeed} {toggle : Bool} {k : Nat} {p : Packet UInt8}
    (h : Batching speed toggle k p) (hk : 0 < k) :
    ∃ ts, .info ts (.folded k) ∈ (p.feed (outPacket.encode toggle)).out := by
  obtain ⟨s, hr, hfeed⟩ := h.boundary.feed_data (spells_encode toggle outPacket)
  rw [if_neg (List.cons_ne_nil _ _)] at hfeed
  have hbody : ((outPacket.encode toggle).drop dataHeaderSize : List UInt8) = [0xe1] := rfl
  rw [hbody] at hr
  have hem := emitted_dataPrepare s
  have he : s.captureEnabled = true := (congrArg Bus.enabled hr.bus).trans h.enabled
  have hf : s.dataPrepare.opts.foldEmpty = true := by
    rw [hem.foldEmpty, hr.opts]
    exact h.folding
  have herr : s.dataPrepare.frameError = false := by
    have hcrc : s.dataPrepare.captureCrcError = s.captureCrcError :=
      congrArg Assembler.crcError hem.assembler_eq
    have hphy : s.dataPrepare.captureDataError = s.captureDataError :=
      congrArg Assembler.dataError hem.assembler_eq
    rw [frameError, hcrc, hphy, hr.crcError, hr.dataError]
    rfl
  have hpid : s.dataPrepare.framePid = 0xe1 := by
    have hpay : s.dataPrepare.payload = [0xe1] := by
      rw [payload, hem.size, hem.dataBytes]
      exact hr.payload
    have hsome := pidOf_payload (p := s.dataPrepare) (by rw [hem.size, hr.size]; decide)
    rw [hpay] at hsome
    exact (Option.some.inj hsome).symm
  have hsbatch : s.dataPrepare.batch = ⟨k, 1⟩ := by
    have hsb : s.batch = ⟨k, 1⟩ := by
      rw [← h.batch_eq, batch, batch, hr.foldBuf, hr.foldCount]
    have hlen : s.captureFoldBuf.length = 1 := congrArg Batch.held hsb
    have hbreaks : s.frameEvent.breaks s.captureFoldBuf.length = false := by
      rw [frameEvent, hr.overflow, frameError, hr.crcError, hr.dataError, hlen]
      rfl
    rw [dataPrepare_batch, found, hbreaks, if_neg Bool.false_ne_true, hsb]
  have hcount : s.dataPrepare.captureFoldCount = k := congrArg Batch.count hsbatch
  have hheld : s.dataPrepare.captureFoldBuf.length ≠ 0 := by
    have hlen : s.dataPrepare.captureFoldBuf.length = 1 := congrArg Batch.held hsbatch
    omega
  have hwrite : s.dataPrepare.dataWrite =
      writePacket s.dataPrepare.stopFolding s.dataPrepare.captureTs s.dataPrepare.payload := by
    rw [dataWrite, if_neg (by simp [herr, hf]), if_pos hheld, hpid, if_neg (by decide),
      if_neg fun hsof => absurd hsof.1 (by decide)]
  obtain ⟨ts, hts⟩ := stopFolding_folded (p := s.dataPrepare) (by rw [hcount]; exact hk)
  rw [hcount] at hts
  have hmem := (writes_checkCaptureLimit _).mem ((Writes.packet s.dataPrepare.stopFolding
    s.dataPrepare.captureTs s.dataPrepare.payload).mem hts)
  refine ⟨ts, ?_⟩
  rw [hfeed]
  show _ ∈ s.dataEvent.out
  rw [dataEvent, if_neg (by simp [he]), hwrite]
  exact hmem

/-- High-Speed and a SOF, `m` more SOFs, Full-Speed, `n` more SOFs, and a
packet. -/
def longFrames (m n : Nat) : List Frame :=
  [speedFrame 0x80, sofPacket] ++ (List.replicate m sofPacket ++
    ([speedFrame 0x40] ++ (List.replicate n sofPacket ++ [outPacket])))

theorem batching_start :
    Batching .hs (toggleAfter false [speedFrame 0x80, sofPacket]) 0
      ((announce (new foldOpts)).feed (encodeFrames false [speedFrame 0x80, sofPacket])) where
  boundary := (atBoundary_announce (show foldOpts.captureLimit ≤ 0 by decide)).frames _
  folding := by decide +kernel
  auto := by decide +kernel
  ls := by decide +kernel
  vbus := by decide +kernel
  trigger := by decide +kernel
  speedIn := by decide +kernel
  enabled := by decide +kernel
  batch_eq := rfl

theorem encodeFrames_singleton (toggle : Bool) (f : Frame) :
    encodeFrames toggle [f] = f.encode toggle := by
  rw [encodeFrames, encodeFrames, List.append_nil]

theorem toggleAfter_singleton (toggle : Bool) (f : Frame) : toggleAfter toggle [f] = !toggle := by
  cases toggle <;> rfl

/-- **A batch that passes 1000 at High-Speed is not stopped at
Full-Speed**: nothing is written until the next packet, however many SOFs
there are. -/
theorem longFrames_folded {m n : Nat} (hlow : foldLimitLsFs ≤ m) (hhigh : m < foldLimitHs) :
    ∃ ts, .info ts (.folded (m + n)) ∈
      ((announce (new foldOpts)).feed (encodeFrames false (longFrames m n))).out := by
  have hpos : 0 < m := Nat.lt_of_lt_of_le (Nat.succ_pos 999) hlow
  have hhs := batching_start.sofs (by decide) m (by
    intro i hi
    rw [if_pos rfl]
    omega)
  rw [Nat.zero_add] at hhs
  have hfs := hhs.fullSpeed.sofs (by decide) n (by
    intro i hi
    rw [if_neg (by decide)]
    omega)
  have hout := hfs.out (Nat.add_pos_left hpos n)
  rw [longFrames, encodeFrames_append, encodeFrames_append, encodeFrames_append,
    encodeFrames_append, encodeFrames_singleton, encodeFrames_singleton, toggleAfter_singleton,
    feed_append, feed_append, feed_append, feed_append]
  exact hout

theorem run_announce_feed (p : Packet β) (data : List β) :
    p.run [.announce, .feed data] = p.announce.feed data := rfl

/-- 1001 SOFs at High-Speed, Full-Speed, 7001 more SOFs, and a packet. -/
def longSession : List (PacketCall UInt8) :=
  [.announce, .feed (encodeFrames false (longFrames 1000 7001))]

/-- **The limits are not kept**: the batch of 1000 at High-Speed goes on
at Full-Speed, and ends up in "Folded 8001 empty frames". -/
theorem longSession_folds_8001 : ¬ BatchBounded foldOpts longSession := by
  intro h
  obtain ⟨ts, hmem⟩ := longFrames_folded (m := 1000) (n := 7001) (by decide) (by decide)
  have hle := h.folded_le ts (1000 + 7001)
  rw [longSession, run_announce_feed] at hle
  exact absurd (hle hmem) (by decide)

end Packet

end UsbSniffer
