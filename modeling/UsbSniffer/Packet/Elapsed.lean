import UsbSniffer.Packet.Boundary
import UsbSniffer.Packet.Heartbeat

/-!
# Decisions on elapsed time

`line_state_event` adds a duration to its record if the line state lasted
less than 10 ms, and `status_event` takes an SE0 of 1000 to 2000 ns for a
keep-alive. Both compare `(int)(capture_ts - capture_saved_ts)`. The
difference is right as a `u64`; as an `int` it repeats every `2 ^ 32` ns
and is negative from `2 ^ 31` on. `run_elapsed_iff` says for which ages
the decisions are right, in any session.

A record is written at one of two times: at the one in the header being
handled, or, from `check_header`, at the one before it (`writeTs`).
-/

namespace UsbSniffer

namespace Packet

variable {β : Type}

/-! ## The two casts -/

/-- The duration a record gets for the difference `x`. -/
def suffixOf (x : UInt64) : Option Int :=
  if castInt x < lsDeltaThreshold then some (castInt x) else none

/-- The ages for which the suffix is right: below 10 ms, or a residue
modulo `2 ^ 32` that is neither below 10 ms nor negative as an `int`. -/
def SuffixSafe (age : Nat) : Prop :=
  age < 10000000 ∨ 10000000 ≤ age % 2 ^ 32 ∧ age % 2 ^ 32 < 2 ^ 31

theorem castInt_lt_threshold_iff (x : UInt64) :
    castInt x < lsDeltaThreshold ↔ x.toNat % 2 ^ 32 < 10000000 ∨ 2 ^ 31 ≤ x.toNat % 2 ^ 32 := by
  have hmod : x.toNat % 2 ^ 32 < 2 ^ 32 := Nat.mod_lt _ (by norm_num)
  rw [castInt, lsDeltaThreshold, timeMs]
  by_cases hneg : x.toNat % 2 ^ 32 < 2 ^ 31
  · rw [if_pos hneg]
    omega
  · rw [if_neg hneg]
    omega

/-- **The suffix says "below 10 ms" exactly for the safe ages.** -/
theorem suffixOf_right_iff (x : UInt64) :
    ((suffixOf x).isSome = true ↔ (x.toNat : Int) < lsDeltaThreshold) ↔ SuffixSafe x.toNat := by
  have hsome : (suffixOf x).isSome = true ↔ castInt x < lsDeltaThreshold := by
    rw [suffixOf]
    by_cases hc : castInt x < lsDeltaThreshold
    · rw [if_pos hc]
      exact iff_of_true rfl hc
    · rw [if_neg hc]
      exact iff_of_false (by simp) hc
  have hmod : x.toNat % 2 ^ 32 < 2 ^ 32 := Nat.mod_lt _ (by norm_num)
  have hle : x.toNat % 2 ^ 32 ≤ x.toNat := Nat.mod_le _ _
  have hsmall : x.toNat < 10000000 → x.toNat % 2 ^ 32 = x.toNat :=
    fun hlt => Nat.mod_eq_of_lt (by omega)
  rw [hsome, castInt_lt_threshold_iff, SuffixSafe, lsDeltaThreshold, timeMs]
  omega

/-- **An age that passes for a keep-alive is one exactly below
`2 ^ 32`.** -/
theorem keepalive_right_iff {x : UInt64} (hmin : minKeepaliveDuration < castInt x)
    (hmax : castInt x < maxKeepaliveDuration) :
    (minKeepaliveDuration < (x.toNat : Int) ∧ (x.toNat : Int) < maxKeepaliveDuration) ↔
      x.toNat < 2 ^ 32 := by
  have hmod : x.toNat % 2 ^ 32 < 2 ^ 32 := Nat.mod_lt _ (by norm_num)
  have hsplit := Nat.div_add_mod x.toNat (2 ^ 32)
  rw [castInt] at hmin hmax
  rw [minKeepaliveDuration, maxKeepaliveDuration] at *
  by_cases hneg : x.toNat % 2 ^ 32 < 2 ^ 31
  · rw [if_pos hneg] at hmin hmax
    omega
  · rw [if_neg hneg] at hmin hmax
    omega

/-! ## The line states a stretch of code writes -/

/-- Without a clock read in between: what is saved stays or is gone, and
a line state is written for the saved one, with its age at the present
`capture_ts`. -/
structure Lines (p p' : Packet β) : Prop where
  ts : p'.captureTs = p.captureTs
  saved : p'.captureSavedLs = lsInvalid ∨
    p'.captureSavedLs = p.captureSavedLs ∧ p'.captureSavedTs = p.captureSavedTs
  added : ∃ w : List (Record β), p'.out = p.out ++ w ∧
    ∀ ts name d, .info ts (.lineState name d) ∈ w →
      p.captureSavedLs ≠ lsInvalid ∧ d = suffixOf (p.captureTs - p.captureSavedTs)

theorem Lines.silent {p p' : Packet β} (hts : p'.captureTs = p.captureTs)
    (hs : p'.captureSavedLs = lsInvalid ∨
      p'.captureSavedLs = p.captureSavedLs ∧ p'.captureSavedTs = p.captureSavedTs)
    {w : List (Record β)} (ho : p'.out = p.out ++ w)
    (hw : ∀ ts name d, .info ts (.lineState name d) ∉ w) : Lines p p' :=
  ⟨hts, hs, w, ho, fun ts name d hmem => absurd hmem (hw ts name d)⟩

theorem Lines.trans {p p₁ p₂ : Packet β} (h₁ : Lines p p₁) (h₂ : Lines p₁ p₂) :
    Lines p p₂ := by
  obtain ⟨w₁, ho₁, hw₁⟩ := h₁.added
  obtain ⟨w₂, ho₂, hw₂⟩ := h₂.added
  refine ⟨h₂.ts.trans h₁.ts, ?_, w₁ ++ w₂, by rw [ho₂, ho₁, List.append_assoc], ?_⟩
  · rcases h₂.saved with hi | ⟨hl, ht⟩
    · exact Or.inl hi
    · rw [hl, ht]
      exact h₁.saved
  · intro ts name d hmem
    rcases List.mem_append.mp hmem with hmem | hmem
    · exact hw₁ ts name d hmem
    · -- what the second stretch finds saved is what the first found
      obtain ⟨hne, hd⟩ := hw₂ ts name d hmem
      rcases h₁.saved with hi | ⟨hl, ht⟩
      · exact absurd hi hne
      · rw [h₁.ts, ht] at hd
        exact ⟨hl ▸ hne, hd⟩

theorem lines_lineStateEvent (p : Packet β) : Lines p p.lineStateEvent := by
  rw [lineStateEvent_eq]
  refine ⟨rfl, Or.inl rfl, _, rfl, ?_⟩
  intro ts name d hmem
  rw [pendingRecords] at hmem
  split at hmem
  · exact (List.not_mem_nil hmem).elim
  · rename_i hp
    rw [List.map_singleton, List.mem_singleton] at hmem
    refine ⟨fun hs => hp (Or.inl hs), ?_⟩
    have hmsg : Msg.lineState name d = p.lineStateMsg := (Record.info.inj hmem).2
    exact (Msg.lineState.inj hmsg).2

theorem lines_writeInfo {m : Msg} (hm : ∀ name d, m ≠ .lineState name d) (p : Packet β)
    (ts : UInt64) : Lines p (writeInfo p ts m) := by
  refine Lines.silent rfl (Or.inr ⟨rfl, rfl⟩) rfl fun ts' name d hmem => ?_
  rw [List.mem_singleton] at hmem
  exact hm name d (Record.info.inj hmem).2.symm

theorem periodicUpdate_ne (name : LineName) (d : Option Int) :
    Msg.periodicUpdate ≠ .lineState name d := Msg.noConfusion

theorem Writes.lines {p p' : Packet β} (h : Writes p p') : Lines p p' := by
  induction h with
  | @same p p' h =>
      simp only [writing, Prod.mk.injEq] at h
      obtain ⟨ho, -, hts, hls, hs⟩ := h
      exact Lines.silent hts (Or.inr ⟨hls, hs⟩) (ho.trans (List.append_nil _).symm)
        fun _ _ _ => List.not_mem_nil
  | forget p =>
      exact Lines.silent rfl (Or.inl rfl) (List.append_nil _).symm fun _ _ _ => List.not_mem_nil
  | line p => exact lines_lineStateEvent p
  | @note m hm p ts =>
      refine lines_writeInfo ?_ p ts
      rintro name d rfl
      exact hm
  | packet p ts data =>
      refine Lines.silent rfl (Or.inr ⟨rfl, rfl⟩) rfl fun ts' name d hmem => ?_
      rw [List.mem_singleton] at hmem
      cases hmem
  | trans _ _ ih₁ ih₂ => exact ih₁.trans ih₂

theorem lines_headerTimeout (p : Packet β) : Lines p p.headerTimeout := by
  have hrefl : Lines p p := (Writes.refl p).lines
  rw [headerTimeout, timeoutEvent]
  split
  · split
    · exact (lines_lineStateEvent p).trans (lines_writeInfo (m := .periodicUpdate) periodicUpdate_ne _ p.captureTs)
    · exact hrefl
  · exact hrefl

/-- A line state added between `p` and `p'` is the one saved in `p`, with
its age at `now`. -/
def Shows (now : UInt64) (p p' : Packet β) : Prop :=
  ∀ ts name d, Adds p p' (.info ts (.lineState name d)) →
    p.captureSavedLs ≠ lsInvalid ∧ d = suffixOf (now - p.captureSavedTs)

theorem Lines.shows {p p' : Packet β} (h : Lines p p') : Shows p.captureTs p p' := by
  rintro ts name d ⟨w', ho', hmem⟩
  obtain ⟨w, ho, hw⟩ := h.added
  rw [ho', List.append_cancel_left_eq] at ho
  exact hw ts name d (ho ▸ hmem)

theorem Shows.congr {now : UInt64} {p₁ p₂ p' : Packet β} (h : Shows now p₂ p')
    (hw : p₂.writing = p₁.writing) : Shows now p₁ p' := by
  simp only [writing, Prod.mk.injEq] at hw
  obtain ⟨ho, -, -, hls, hs⟩ := hw
  rintro ts name d ⟨w, hout, hmem⟩
  rw [← hls, ← hs]
  exact h ts name d ⟨w, by rw [ho, hout], hmem⟩

/-! ## A header that changes nothing -/

theorem statusEvent_same {p : Packet β} {speed : CaptureSpeed}
    (h : p.captureSpeedIn = some speed) :
    p.statusEvent p.captureLs p.captureVbus p.captureTriggerInput speed = p := by
  rw [statusEvent, statusTrigger, if_pos rfl, statusVbus, if_pos rfl, statusSpeed, if_pos h,
    statusLs, if_pos rfl]

theorem headerTimeout_of_closed {p : Packet β} (h : p.captureEnabled = false) :
    p.headerTimeout = p := by
  rw [headerTimeout, timeoutEvent, h]
  split <;> rfl

/-! ## One byte -/

variable [ByteLike β]

/-- `status_event` up to its line-state part, for the status header in
the buffer. -/
def statusFront (p : Packet β) : Packet β :=
  statusSpeed (statusVbus (statusTrigger p.headerCommon (flag (p.headerCommon.byteAt 3) 0x20))
    (flag (p.headerCommon.byteAt 3) 0x10)) (speedField (p.headerCommon.byteAt 3))

/-- The line state in the status header in the buffer. -/
def lineField (p : Packet β) : Int := (p.headerCommon.byteAt 3 &&& 0x0f).toNat

theorem lines_statusFront (p : Packet β) : Lines p.clocked p.statusFront :=
  (lines_headerTimeout p.clocked).trans
    (((writes_statusTrigger p.headerCommon _).trans (writes_statusVbus _ _)).trans
      (writes_statusSpeed _ _)).lines

/-- Behind the clock of a header, what it brings is written at the new
time. -/
theorem lines_headerDone (p : Packet β) :
    ∃ q, Lines p.clocked q ∧ p.headerDone.out = q.out := by
  rw [headerDone]
  split
  · obtain ⟨q, hq, he⟩ := writes_statusLs p.statusFront p.lineField
    refine ⟨q, (lines_statusFront p).trans hq.lines, ?_⟩
    have hout : p.headerCommon.statusHeader.out = (p.statusFront.statusLs p.lineField).out := rfl
    rw [hout]
    rcases he with he | he
    · rw [he]
    · rw [he]
      rfl
  · exact ⟨_, (lines_headerTimeout p.clocked).trans (writes_dataHeader _).lines, rfl⟩

/-- The header in the buffer passes `check_header`. -/
def passes (p : Packet β) : Bool :=
  flag (p.byteAt 0) 0x40 == p.captureToggle && flag (p.byteAt 0) 0x20 == 0

/-- `capture_ts` when the byte `b` has a line state written: an error of
`check_header` comes before the header's own time. -/
def writeTs (p : Packet β) (b : β) : UInt64 :=
  if p.endsHeader b && !(p.pushed b).passes then p.captureTs else (p.captureSm b).captureTs

theorem checkHeader_of_passes {p : Packet β} (h : p.passes = true) :
    p.checkHeader (flag (p.byteAt 0) 0x40) (flag (p.byteAt 0) 0x20) = p := by
  rw [passes, Bool.and_eq_true, beq_iff_eq, beq_iff_eq] at h
  rw [checkHeader, if_pos h]

theorem clocked_of_passes {p : Packet β} (h : p.passes = true) : p.clocked = p.headerClock := by
  rw [clocked, checkHeader_of_passes h]

/-- An error of `check_header` leaves no line state saved. -/
theorem checkHeader_savedLs {p : Packet β} (h : p.passes = false) :
    (p.checkHeader (flag (p.byteAt 0) 0x40) (flag (p.byteAt 0) 0x20)).captureSavedLs =
      lsInvalid := by
  have hbad : ¬ (flag (p.byteAt 0) 0x40 = p.captureToggle ∧ flag (p.byteAt 0) 0x20 = 0) := by
    rintro ⟨ht, hz⟩
    rw [passes, ht, hz] at h
    simp at h
  have hnote : ∀ q : Packet β, q.noteHeader.captureSavedLs = lsInvalid := by
    intro q
    rw [noteHeader]
    exact captureInfo_savedLs q _ _
  rw [checkHeader, if_neg hbad]
  exact hnote _

/-- The header's own time, and what was saved in front of it. -/
theorem headerDone_shows {p : Packet β} (h : p.passes = true) :
    Shows p.headerDone.captureTs p p.headerDone := by
  have hclocked := clocked_of_passes h
  obtain ⟨q, hq, hout⟩ := lines_headerDone p
  rintro ts name d ⟨w, hw, hmem⟩
  have hadds : Adds p.clocked q (.info ts (.lineState name d)) := by
    refine ⟨w, ?_, hmem⟩
    rw [← hout, hw, hclocked]
    rfl
  have hage := hq.shows ts name d hadds
  rw [clocked_ts, hclocked] at hage
  exact hage

/-- The texts of `check_header` take the line state with them. -/
theorem headerDone_shows_of_fails {p : Packet β} (h : p.passes = false) :
    Shows p.captureTs p p.headerDone := by
  have hgone : p.clocked.captureSavedLs = lsInvalid := checkHeader_savedLs h
  obtain ⟨q, hq, hout⟩ := lines_headerDone p
  obtain ⟨w₁, ho₁, hw₁⟩ := (writes_checkHeader p (flag (p.byteAt 0) 0x40)
    (flag (p.byteAt 0) 0x20)).lines.added
  obtain ⟨w₂, ho₂, hw₂⟩ := hq.added
  rintro ts name d ⟨w, hw, hmem⟩
  have hsplit : w = w₁ ++ w₂ := by
    have hall : p.out ++ w = p.out ++ (w₁ ++ w₂) := by
      rw [← hw, hout, ho₂, ← List.append_assoc, ← ho₁]
      rfl
    exact List.append_cancel_left hall
  rw [hsplit] at hmem
  rcases List.mem_append.mp hmem with hmem | hmem
  · exact hw₁ ts name d hmem
  · exact absurd hgone (hw₂ ts name d hmem).1

theorem writing_pushed (p : Packet β) (b : β) : (p.pushed b).writing = p.writing := by
  rw [pushed, startFrame]
  split <;> rfl

/-- **What a byte writes shows the age at `writeTs`.** -/
theorem captureSm_shows (p : Packet β) (b : β) : Shows (p.writeTs b) p (p.captureSm b) := by
  rw [writeTs]
  by_cases he : p.endsHeader b = true
  · by_cases hpass : (p.pushed b).passes = true
    · rw [he, hpass, if_neg (by simp), captureSm_endsHeader he]
      exact (headerDone_shows hpass).congr (writing_pushed p b)
    · have hfail : (p.pushed b).passes = false := by simpa using hpass
      rw [he, hfail, if_pos (by simp), captureSm_endsHeader he, ← pushed_ts p b]
      exact (headerDone_shows_of_fails hfail).congr (writing_pushed p b)
  · have hl := (writes_captureSm he).lines
    rw [if_neg (by simp [he]), hl.ts]
    exact hl.shows

/-- The byte `b` completes a status header in which `status_event` finds
the end of a keep-alive. -/
def Classifies (p : Packet β) (b : β) : Prop :=
  p.endsHeader b = true ∧ (p.pushed b).headerCommon.captureStatus = true ∧
    (p.pushed b).statusFront.captureLs ≠ (p.pushed b).lineField ∧
      (p.pushed b).statusFront.isKeepalive (p.pushed b).lineField = true

/-- `delta` of `status_event`. -/
def lineDelta (p : Packet β) (b : β) : UInt64 :=
  (p.pushed b).statusFront.captureTs - (p.pushed b).statusFront.captureSavedTs

theorem Classifies.delta {p : Packet β} {b : β} (h : p.Classifies b) :
    minKeepaliveDuration < castInt (p.lineDelta b) ∧
      castInt (p.lineDelta b) < maxKeepaliveDuration := by
  have hk := h.2.2.2
  simp only [isKeepalive, Bool.and_eq_true, decide_eq_true_eq] at hk
  exact hk.2

/-- The difference `status_event` takes is to the line state saved before
the header. -/
theorem Classifies.lineDelta_eq {p : Packet β} {b : β} (h : p.Classifies b) :
    p.captureSavedLs ≠ lsInvalid ∧ p.lineDelta b = p.writeTs b - p.captureSavedTs := by
  have hl := lines_statusFront (p.pushed b)
  have hne : (p.pushed b).statusFront.captureSavedLs ≠ lsInvalid := by
    rw [isKeepalive_savedLs h.2.2.2]
    decide
  obtain ⟨hls, hs⟩ := hl.saved.resolve_left hne
  have hpass : (p.pushed b).passes = true := by
    by_contra hfail
    refine hne (hls.trans (checkHeader_savedLs ?_))
    simpa using hfail
  have hclocked := clocked_of_passes hpass
  have hts : p.writeTs b = (p.pushed b).clocked.captureTs := by
    rw [writeTs, h.1, hpass, if_neg (by simp), captureSm_endsHeader h.1, clocked_ts]
  have hsaved : (p.pushed b).clocked.captureSavedTs = p.captureSavedTs := by
    rw [hclocked]
    exact congrArg (fun w => w.2.2.2.2) (writing_pushed p b)
  have hpending : (p.pushed b).clocked.captureSavedLs = p.captureSavedLs := by
    rw [hclocked]
    exact congrArg (fun w => w.2.2.2.1) (writing_pushed p b)
  refine ⟨fun hi => hne (hls.trans (hpending.trans hi)), ?_⟩
  rw [lineDelta, hl.ts, hs, hts, hsaved]

/-! ## Runs -/

/-- A stretch of a session in which a line state may be written: the
states around it, and `capture_ts` when it is. -/
structure Moment (β : Type) where
  before : Packet β
  now : UInt64
  after : Packet β

/-- The exact age of the saved line state. -/
def Moment.age (m : Moment β) : Nat := (m.now - m.before.captureSavedTs).toNat

/-- A line state is written, with the duration `d`. -/
def Moment.Notes (m : Moment β) (d : Option Int) : Prop :=
  ∃ ts name, Adds m.before m.after (.info ts (.lineState name d))

/-- One byte. -/
def byteMoment (s : Packet β × β) : Moment β := ⟨s.1, s.1.writeTs s.2, s.1.captureSm s.2⟩

def callMoments (p : Packet β) : PacketCall β → List (Moment β)
  | .feed data => (p.feedSteps data).map byteMoment
  | c => [⟨p, p.captureTs, p.call c⟩]

/-- A session, in stretches: byte by byte, and call by call. -/
def runMoments : Packet β → List (PacketCall β) → List (Moment β)
  | _, [] => []
  | p, c :: cs => p.callMoments c ++ runMoments (p.call c) cs

/-- The decisions on elapsed time agree with the exact differences. -/
structure Elapsed (opts : PacketOpts) (calls : List (PacketCall β)) : Prop where
  /-- A line state carries a duration exactly if it lasted below 10 ms. -/
  suffix : ∀ m ∈ (new opts : Packet β).runMoments calls, ∀ d, m.Notes d →
    (d.isSome = true ↔ (m.age : Int) < lsDeltaThreshold)
  /-- What passes for a keep-alive lasted between 1000 and 2000 ns. -/
  keepalive : ∀ s ∈ (new opts : Packet β).runSteps calls, s.1.Classifies s.2 →
    minKeepaliveDuration < ((s.1.lineDelta s.2).toNat : Int) ∧
      ((s.1.lineDelta s.2).toNat : Int) < maxKeepaliveDuration

/-- The ages at which the session looks at a line state are ones the
casts keep apart. -/
structure AgesSafe (opts : PacketOpts) (calls : List (PacketCall β)) : Prop where
  suffix : ∀ m ∈ (new opts : Packet β).runMoments calls, (∃ d, m.Notes d) → SuffixSafe m.age
  keepalive : ∀ s ∈ (new opts : Packet β).runSteps calls, s.1.Classifies s.2 →
    (byteMoment s).age < 2 ^ 32

theorem callMoments_shows (p : Packet β) (c : PacketCall β) :
    ∀ m ∈ p.callMoments c, Shows m.now m.before m.after := by
  intro m hm
  cases c with
  | feed data =>
      obtain ⟨s, -, rfl⟩ := List.mem_map.mp hm
      exact captureSm_shows s.1 s.2
  | announce =>
      rw [List.mem_singleton.mp hm]
      exact (writes_announce p).lines.shows
  | rsync =>
      rw [List.mem_singleton.mp hm]
      exact (writes_captureInfo (m := .linkLoss) trivial p _).lines.shows
  | info msg =>
      rw [List.mem_singleton.mp hm]
      exact (writes_captureInfo (m := .plain msg) trivial p _).lines.shows
  | stopInfo reason =>
      rw [List.mem_singleton.mp hm]
      exact (writes_captureInfo (m := .stopped reason) trivial p _).lines.shows

/-- Every line state of a session shows its age. -/
theorem runMoments_shows (p : Packet β) (calls : List (PacketCall β)) :
    ∀ m ∈ p.runMoments calls, Shows m.now m.before m.after := by
  induction calls generalizing p with
  | nil => exact fun m hm => (List.not_mem_nil hm).elim
  | cons c cs ih =>
      intro m hm
      rw [runMoments] at hm
      rcases List.mem_append.mp hm with hm | hm
      · exact callMoments_shows p c m hm
      · exact ih (p.call c) m hm

theorem byteMoment_mem {calls : List (PacketCall β)} {p : Packet β} {s : Packet β × β}
    (hs : s ∈ p.runSteps calls) : byteMoment s ∈ p.runMoments calls := by
  induction calls generalizing p with
  | nil => exact (List.not_mem_nil hs).elim
  | cons c cs ih =>
      rw [runSteps] at hs
      rw [runMoments]
      rcases List.mem_append.mp hs with hs | hs
      · cases c with
        | feed data => exact List.mem_append_left _ (List.mem_map_of_mem hs)
        | _ => exact (List.not_mem_nil hs).elim
      · exact List.mem_append_right _ (ih hs)

/-- A written line state is right exactly if its age is safe. -/
theorem notes_right_iff {p : Packet β} {calls : List (PacketCall β)} {m : Moment β}
    (hm : m ∈ p.runMoments calls) {d : Option Int} (hd : m.Notes d) :
    (d.isSome = true ↔ (m.age : Int) < lsDeltaThreshold) ↔ SuffixSafe m.age := by
  obtain ⟨ts, name, hadds⟩ := hd
  rw [(runMoments_shows p calls m hm ts name d hadds).2]
  exact suffixOf_right_iff _

/-- What passes for a keep-alive is one exactly below `2 ^ 32` ns. -/
theorem classified_right_iff {s : Packet β × β} (h : s.1.Classifies s.2) :
    (minKeepaliveDuration < ((s.1.lineDelta s.2).toNat : Int) ∧
      ((s.1.lineDelta s.2).toNat : Int) < maxKeepaliveDuration) ↔
        (byteMoment s).age < 2 ^ 32 := by
  have hage : (byteMoment s).age = (s.1.lineDelta s.2).toNat := by
    rw [h.lineDelta_eq.2]
    rfl
  rw [hage]
  exact keepalive_right_iff h.delta.1 h.delta.2

/-- **The decisions on elapsed time are right exactly in the sessions
with safe ages.** -/
theorem run_elapsed_iff (opts : PacketOpts) (calls : List (PacketCall UInt8)) :
    Elapsed opts calls ↔ AgesSafe opts calls := by
  constructor
  · intro h
    refine ⟨?_, fun s hs hc => (classified_right_iff hc).mp (h.keepalive s hs hc)⟩
    rintro m hm ⟨d, hd⟩
    exact (notes_right_iff hm hd).mp (h.suffix m hm d hd)
  · intro h
    refine ⟨?_, fun s hs hc => (classified_right_iff hc).mpr (h.keepalive s hs hc)⟩
    intro m hm d hd
    exact (notes_right_iff hm hd).mpr (h.suffix m hm ⟨d, hd⟩)

/-! ## The clock of whole headers -/

theorem feedTs_of_done {p : Packet β} (hd : p.done = true) (data : List β) :
    p.feedTs data = [] := by
  cases data with
  | nil => rfl
  | cons b bs => rw [feedTs, if_pos hd]

theorem feedTs_append (p : Packet β) (xs ys : List β) :
    p.feedTs (xs ++ ys) = p.feedTs xs ++ (p.feed xs).feedTs ys := by
  induction xs generalizing p with
  | nil => rw [feed_nil, feedTs, List.nil_append, List.nil_append]
  | cons b bs ih =>
      rw [List.cons_append, feedTs, feedTs]
      by_cases hd : p.done = true
      · rw [if_pos hd, if_pos hd, feed_of_done hd, feedTs_of_done hd, List.append_nil]
      · rw [if_neg hd, if_neg hd, feed_cons (by simpa using hd), ih, List.cons_append]

/-- The clock stands still inside a header. -/
theorem feedTs_part {bs : List β} {p : Packet β} (hd : p.done = false)
    (hphase : p.captureHeader = true → p.captureDataPtr ≠ 0)
    (hlen : (p.captureDataPtr : Int) + bs.length < p.captureSize) :
    p.feedTs bs = List.replicate bs.length p.captureTs := by
  induction bs generalizing p with
  | nil => rfl
  | cons b bs ih =>
      rw [List.length_cons] at hlen ⊢
      rw [feedTs, if_neg (by simp [hd]), captureSm_part hphase (by omega), List.replicate_succ]
      refine congrArg (_ :: ·) (ih (p := p.storeByte b) hd ?_ ?_)
      · exact fun _ => Nat.succ_ne_zero _
      · show ((p.captureDataPtr + 1 : Nat) : Int) + bs.length < p.captureSize
        omega

/-- A whole header sets the clock with its last byte. -/
theorem feedTs_header {p : Packet β} (hd : p.done = false) (hh : p.captureHeader = true)
    (h0 : p.captureDataPtr = 0) (b : β) (bs : List β) (hlen : bs.length + 1 = headerLength b) :
    p.feedTs (b :: bs) =
      List.replicate bs.length p.captureTs ++ [(p.feed (b :: bs)).captureTs] := by
  have h1 := one_lt_headerLength b
  obtain ⟨init, z, rfl⟩ : ∃ init z, bs = init ++ [z] := by
    rcases List.eq_nil_or_concat bs with rfl | ⟨init, z, he⟩
    · rw [List.length_nil] at hlen
      omega
    · exact ⟨init, z, by rw [he, List.concat_eq_append]⟩
  rw [List.length_append, List.length_singleton] at hlen ⊢
  have hfirst := captureSm_first hh h0 b
  have hphase : (p.captureSm b).captureHeader = true → (p.captureSm b).captureDataPtr ≠ 0 := by
    rw [hfirst]
    exact fun _ => Nat.one_ne_zero
  have hd' : (p.captureSm b).done = false := by rw [hfirst]; exact hd
  have hlen' : ((p.captureSm b).captureDataPtr : Int) + init.length <
      (p.captureSm b).captureSize := by
    rw [hfirst]
    show ((1 : Nat) : Int) + init.length < headerLength b
    omega
  have hts : (p.captureSm b).captureTs = p.captureTs := by rw [hfirst]
  have hdone : ((p.captureSm b).feed init).done = false := by
    rw [feed_part hd' hphase hlen']
    exact hd'
  rw [feed_cons hd, feed_append, feed_cons hdone, feed_nil, feedTs, if_neg (by simp [hd]),
    feedTs_append, feedTs_part hd' hphase hlen', feedTs, if_neg (by simp [hdone]), feedTs, hts,
    List.replicate_succ, List.cons_append]

/-! ## A capture that waits

With the gate closed there is no update, and a line state stays pending
for as long as the bus does not change. The clock goes on: the hardware
reports every turn of its 20-bit timestamp. -/

/-- Full-Speed J, no VBUS, the trigger input low. -/
def restFlags : UInt8 := 0x41

/-- The first status frame. -/
def restFrame : Frame := .status ⟨false, 0, FrameClock.zero_lt⟩ restFlags

/-- A turn of the hardware timestamp. -/
def turnFrame : Frame := .status ⟨true, 0, FrameClock.zero_lt⟩ restFlags

/-- `capture_ts` behind `n` turns. -/
def turnTime (n : Nat) : Nat := 0x100000 * n * 100 / 6

/-- At a boundary behind `n` turns, with the gate closed and a line state
pending since the time 0. -/
structure Waiting (toggle : Bool) (n : Nat) (p : Packet UInt8) : Prop where
  boundary : AtBoundary toggle p
  bus_eq : p.bus = ⟨1, 0, 0, some .fs, false⟩
  tsInt : p.captureTsInt.toNat = 0x100000 * n
  ts : p.captureTs.toNat = turnTime n
  savedLs : p.captureSavedLs = 1
  savedTs : p.captureSavedTs = 0
  noted : p.opts.excludeLineState = false

/-- **A turn leaves the line state pending**, and sets the clock with its
last byte. -/
theorem Waiting.turn {toggle : Bool} {n : Nat} {p : Packet UInt8} (h : Waiting toggle n p)
    (hn : n < 2 ^ 37) :
    Waiting (!toggle) (n + 1) (p.feed (turnFrame.encode toggle)) ∧
      p.feedTs (turnFrame.encode toggle) = List.replicate 3 p.captureTs ++
        [(p.feed (turnFrame.encode toggle)).captureTs] := by
  have hb := h.boundary.status (spells_encode toggle turnFrame)
  obtain ⟨b, bs, hencode, hst, hlen, hbytes, hthird⟩ :=
    status_bytes toggle ⟨true, 0, by decide⟩ restFlags
  have hturn : turnFrame.encode toggle = b :: bs := hencode
  have hfirst : b = headByte false toggle true (0 / 2 ^ 16) := (List.cons.inj hencode).1.symm
  obtain ⟨hcommon, -, -⟩ := h.boundary.headerCommon (c := ⟨true, 0, by decide⟩) hfirst bs
  obtain ⟨hls, hvbus, hinput, hspeed, hclosed⟩ := Bus.mk.inj h.bus_eq
  -- nothing but the header's clock
  have hsame : p.feed (b :: bs) = { (p.withHeader b bs).headerClock with captureDataPtr := 0 } := by
    rw [headerTimeout_of_closed (p := (p.withHeader b bs).headerClock) hclosed] at hcommon
    have hstatus : (p.withHeader b bs).headerClock.captureStatus = true := hst
    rw [feed_header h.boundary.unlimited.running h.boundary.header h.boundary.dataPtr b bs hlen,
      headerDone, hcommon, if_pos hstatus, statusHeader, statusOf]
    have hflags : (p.withHeader b bs).headerClock.byteAt 3 = restFlags :=
      byteAt_stored (show (p.withHeader b bs).headerClock.captureData =
        storeBytes p.captureData 0 (b :: bs) from rfl) hthird
    have hevent := statusEvent_same (p := (p.withHeader b bs).headerClock) hspeed
    rw [hflags]
    refine congrArg (fun q : Packet UInt8 => { q with captureDataPtr := 0 }) ?_
    refine Eq.trans ?_ hevent
    show statusEvent (p.withHeader b bs).headerClock 1 0 0 .fs =
      statusEvent (p.withHeader b bs).headerClock p.captureLs p.captureVbus p.captureTriggerInput .fs
    rw [hls, hvbus, hinput]
  have htsInt := nextTsInt_toNat (hbytes p) h.tsInt hn
  have hts := headerTime_toNat (hbytes p) h.tsInt hn
  have hlen3 : bs.length = 3 := by
    rw [headerLength, hst] at hlen
    exact Nat.succ.inj hlen
  have hclock := feedTs_header h.boundary.unlimited.running h.boundary.header h.boundary.dataPtr
    b bs hlen
  rw [hlen3] at hclock
  rw [hturn] at hb ⊢
  refine ⟨?_, hclock⟩
  rw [hsame] at hb ⊢
  exact
    { boundary := hb
      bus_eq := h.bus_eq
      tsInt := htsInt
      ts := by
        refine hts.trans ?_
        rw [turnTime, Nat.zero_add]
        rfl
      savedLs := h.savedLs
      savedTs := h.savedTs
      noted := h.noted }

/-- The clock does not go back in `data`, and ends at its latest value. -/
structure Climbs (p : Packet β) (data : List β) : Prop where
  sorted : (p.captureTs :: p.feedTs data).Pairwise (· ≤ ·)
  last : ∀ t ∈ p.captureTs :: p.feedTs data, t ≤ (p.feed data).captureTs

theorem Climbs.append {p : Packet β} {xs ys : List β} (h₁ : Climbs p xs)
    (h₂ : Climbs (p.feed xs) ys) : Climbs p (xs ++ ys) where
  sorted := by
    have hsorted := List.pairwise_cons.mp h₂.sorted
    rw [feedTs_append, ← List.cons_append, List.pairwise_append]
    exact ⟨h₁.sorted, hsorted.2, fun a ha b hb => UInt64.le_trans (h₁.last a ha) (hsorted.1 b hb)⟩
  last := by
    intro t ht
    rw [feedTs_append, ← List.cons_append] at ht
    rw [feed_append]
    rcases List.mem_append.mp ht with ht | ht
    · exact UInt64.le_trans (h₁.last t ht) (h₂.last _ List.mem_cons_self)
    · exact h₂.last t (List.mem_cons_of_mem _ ht)

theorem turnTime_mono (n : Nat) : turnTime n ≤ turnTime (n + 1) := by
  rw [turnTime, turnTime]
  omega

theorem Waiting.climbs {toggle : Bool} {n : Nat} {p : Packet UInt8} (h : Waiting toggle n p)
    (hn : n < 2 ^ 37) : Climbs p (turnFrame.encode toggle) := by
  obtain ⟨hnext, hclock⟩ := h.turn hn
  have hle : p.captureTs ≤ (p.feed (turnFrame.encode toggle)).captureTs := by
    rw [UInt64.le_iff_toNat_le, h.ts, hnext.ts]
    exact turnTime_mono n
  have hmem : ∀ t ∈ p.captureTs :: p.feedTs (turnFrame.encode toggle),
      t = p.captureTs ∨ t = (p.feed (turnFrame.encode toggle)).captureTs := by
    intro t ht
    rw [hclock] at ht
    simpa using ht
  refine ⟨?_, fun t ht => ?_⟩
  · rw [hclock]
    simp [hle]
  · rcases hmem t ht with rfl | rfl
    · exact hle
    · exact UInt64.le_refl _

/-- Turn after turn. -/
theorem Waiting.turns {toggle : Bool} {n : Nat} {p : Packet UInt8} (h : Waiting toggle n p)
    (k : Nat) (hk : n + k ≤ 2 ^ 37) :
    Waiting (toggleAfter toggle (List.replicate k turnFrame)) (n + k)
        (p.feed (encodeFrames toggle (List.replicate k turnFrame))) ∧
      Climbs p (encodeFrames toggle (List.replicate k turnFrame)) := by
  induction k generalizing toggle n p with
  | zero =>
      rw [List.replicate_zero, encodeFrames, feed_nil]
      refine ⟨by cases toggle <;> exact h, List.pairwise_singleton _ _, ?_⟩
      intro t ht
      rw [List.mem_singleton.mp ht, feed_nil]
      exact UInt64.le_refl _
  | succ k ih =>
      have hn : n < 2 ^ 37 := by omega
      obtain ⟨hw, hc⟩ := ih (h.turn hn).1 (by omega)
      rw [List.replicate_succ, encodeFrames, feed_append, toggleAfter_cons,
        show n + (k + 1) = n + 1 + k by omega]
      exact ⟨hw, (h.climbs hn).append hc⟩

/-- **Whatever ends the wait writes the line state**, with what the cast
makes of its age. -/
theorem Waiting.stop {toggle : Bool} {n : Nat} {p : Packet UInt8} (h : Waiting toggle n p)
    (reason : String) :
    ∃ name, Adds p (p.stopInfo reason) (.info 0 (.lineState name (suffixOf p.captureTs))) := by
  have hpending : p.pendingRecords = [(p.captureSavedTs, p.lineStateMsg)] := by
    rw [pendingRecords, if_neg]
    rw [h.savedLs, h.noted]
    simp [lsInvalid]
  obtain ⟨name, hmsg⟩ : ∃ name, p.lineStateMsg =
      .lineState name (suffixOf (p.captureTs - p.captureSavedTs)) := ⟨_, rfl⟩
  refine ⟨name, (p.pendingRecords ++ [(p.captureTs, Msg.stopped reason)]).map infoRecord, ?_, ?_⟩
  · rw [stopInfo, captureInfo_eq]
  · rw [hpending, hmsg, h.savedTs, UInt64.sub_zero]
    exact List.mem_cons_self

/-- A first status frame, `n` turns, and the end of the capture. -/
def waitingSession (n : Nat) : List (PacketCall UInt8) :=
  [.announce, .feed (encodeFrames false (restFrame :: List.replicate n turnFrame)),
    .stopInfo "stream ended"]

theorem waiting_start :
    Waiting true 0 ((announce (new triggerOpts)).feed (restFrame.encode false)) ∧
      Climbs (announce (new triggerOpts)) (restFrame.encode false) := by
  have hts : (announce (new triggerOpts : Packet UInt8)).captureTs ::
      (announce (new triggerOpts)).feedTs (restFrame.encode false) = List.replicate 5 0 := by
    decide +kernel
  have hend : ((announce (new triggerOpts)).feed (restFrame.encode false)).captureTs = 0 := by
    decide +kernel
  refine ⟨?_, by rw [hts]; decide, ?_⟩
  · exact
      { boundary := (atBoundary_announce (show triggerOpts.captureLimit ≤ 0 by decide)).frame
          (spells_encode false restFrame)
        bus_eq := by
          rw [bus, Bus.mk.injEq]
          decide +kernel
        tsInt := by decide +kernel
        ts := by decide +kernel
        savedLs := by decide +kernel
        savedTs := by decide +kernel
        noted := by decide +kernel }
  · intro t ht
    rw [hts] at ht
    rw [List.eq_of_mem_replicate ht, hend]
    exact UInt64.le_refl 0

theorem waitingSession_waits {n : Nat} (hn : n ≤ 2 ^ 37) :
    ∃ toggle, Waiting toggle n ((announce (new triggerOpts)).feed
        (encodeFrames false (restFrame :: List.replicate n turnFrame))) ∧
      Climbs (announce (new triggerOpts))
        (encodeFrames false (restFrame :: List.replicate n turnFrame)) := by
  obtain ⟨hstart, hclimb⟩ := waiting_start
  obtain ⟨hw, hc⟩ := hstart.turns n (by omega)
  rw [Nat.zero_add] at hw
  rw [encodeFrames, feed_append]
  exact ⟨_, hw, hclimb.append hc⟩

theorem waitingSession_sorted {n : Nat} (hn : n ≤ 2 ^ 37) :
    ((new triggerOpts).runTs (waitingSession n)).Pairwise (· ≤ ·) := by
  obtain ⟨-, -, hc⟩ := waitingSession_waits hn
  have hts : (new triggerOpts).runTs (waitingSession n) = (announce (new triggerOpts)).feedTs
      (encodeFrames false (restFrame :: List.replicate n turnFrame)) := by
    rw [waitingSession, runTs, runTs, runTs, runTs]
    exact List.append_nil _
  rw [hts]
  exact (List.pairwise_cons.mp hc.sorted).2

/-- The line state comes out at the end, `turnTime n` old. -/
theorem waitingSession_notes {n : Nat} (hn : n ≤ 2 ^ 37) :
    ∃ m ∈ (new triggerOpts).runMoments (waitingSession n),
      (∃ d, m.Notes d) ∧ m.age = turnTime n := by
  obtain ⟨toggle, hw, -⟩ := waitingSession_waits hn
  generalize hp : (announce (new triggerOpts)).feed
    (encodeFrames false (restFrame :: List.replicate n turnFrame)) = p at hw
  obtain ⟨name, hadds⟩ := hw.stop "stream ended"
  refine ⟨⟨p, p.captureTs, p.stopInfo "stream ended"⟩, ?_, ⟨_, 0, name, hadds⟩, ?_⟩
  · rw [waitingSession, runMoments, runMoments, runMoments, ← hp]
    exact List.mem_append_right _ (List.mem_append_right _ List.mem_cons_self)
  · rw [Moment.age, hw.savedTs, UInt64.sub_zero]
    exact hw.ts

/-- **The cast shows**: behind 124 turns, 2.167 s, a line state is written
as one below 10 ms, in a session whose clock never goes back. -/
theorem waitingSession_wraps :
    ((new triggerOpts).runTs (waitingSession 124)).Pairwise (· ≤ ·) ∧
      ¬ Elapsed triggerOpts (waitingSession 124) := by
  refine ⟨waitingSession_sorted (by norm_num), fun h => ?_⟩
  obtain ⟨m, hm, ⟨d, hd⟩, hage⟩ := waitingSession_notes (n := 124) (by norm_num)
  have hsafe := (notes_right_iff hm hd).mp (h.suffix m hm d hd)
  rw [hage] at hsafe
  have hnot : ¬ SuffixSafe (turnTime 124) := by
    rw [SuffixSafe, turnTime]
    norm_num
  exact hnot hsafe

end Packet

end UsbSniffer
