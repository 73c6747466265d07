import UsbSniffer.Packet.Elapsed

/-!
# A capture without a trigger

Without a trigger the gate is always open, and the 2 s update keeps what
is pending young: a line state is saved no earlier than the last record,
and that is at most 2 s old behind every header. So no age reaches
`2 ^ 31` ns, and the decisions of `line_state_event` and `status_event`
are right (`elapsed_ungated`). A capture that waits for its trigger has no
update, and no such bound.
-/

namespace UsbSniffer.Packet

variable {β : Type}

/-- No trigger: the gate is open and stays so. -/
structure Ungated (p : Packet β) : Prop where
  enabled : p.captureEnabled = true
  trigger : p.opts.captureTrigger = .disabled

theorem Emitted.ungated {p p' : Packet β} (h : Emitted p p') (hu : Ungated p) : Ungated p' where
  enabled := h.enabled.trans hu.enabled
  trigger := (congrArg PacketOpts.captureTrigger h.settings_eq).trans hu.trigger

theorem Ungated.statusEvent {p : Packet β} (h : Ungated p) (ls vbus trigger : Int)
    (speed : CaptureSpeed) : Ungated (p.statusEvent ls vbus trigger speed) where
  enabled := by
    have hgate := congrArg Prod.snd (gateState_statusEvent p ls vbus trigger speed)
    refine hgate.trans ?_
    show (if p.captureTriggerInput = trigger then p.captureEnabled
      else gate p.opts.captureTrigger p.captureEnabled p.captureTriggerInput trigger) = true
    rw [h.enabled, h.trigger]
    split <;> rfl
  trigger :=
    (congrArg PacketOpts.captureTrigger
      (signalled_statusEvent p ls vbus trigger speed).settings_eq).trans h.trigger

/-! ## Young line states -/

/-- Between two bytes of a session without a trigger. -/
structure Prompt (p : Packet β) : Prop where
  timed : Timed p
  ungated : Ungated p
  young : p.gap ≤ updateInterval

theorem Prompt.writes {p p' : Packet β} (h : Prompt p) (hw : Writes p p') (ho : Ordered p')
    (hu : Ungated p') : Prompt p' where
  timed := ⟨ho, hw.wrote.latest h.timed.latest⟩
  ungated := hu
  young :=
    Fresh.wrote (fun _ => h.young) hw.wrote h.timed.latest ho hw.lines.ts
      (hu.enabled.trans h.ungated.enabled.symm) hu.enabled

theorem Prompt.captureInfo {p : Packet β} (h : Prompt p) {m : Msg} (hm : Other m) :
    Prompt (captureInfo p p.captureTs m) :=
  h.writes (writes_captureInfo hm p _) (h.timed.ordered.captureInfo m)
    ((emitted_captureInfo p _ m).ungated h.ungated)

/-- A line state pending is looked at before an `int` is too small for its
age. -/
theorem Prompt.age_lt {p : Packet β} (h : Prompt p) (hs : p.captureSavedLs ≠ lsInvalid)
    {now : UInt64} (hle : p.captureTs ≤ now) (hnear : now.toNat < p.captureTs.toNat + 100000000) :
    (now - p.captureSavedTs).toNat < 2 ^ 31 := by
  have hlast := UInt64.le_iff_toNat_le.mp (h.timed.ordered.saved hs)
  have hsaved := UInt64.le_trans h.timed.ordered.saved_le hle
  have hyoung := h.young
  rw [gap, updateInterval, timeMs] at hyoung
  rw [UInt64.toNat_sub_of_le _ _ hsaved]
  omega

variable [ByteLike β]

/-! ## The gate stays open -/

theorem Ungated.headerDone {p : Packet β} (h : Ungated p) : Ungated p.headerDone := by
  have hcheck : Ungated p.clocked := by
    rcases checkHeader_eq p (flag (p.byteAt 0) 0x40) (flag (p.byteAt 0) 0x20) with he | ⟨q, hq, he⟩
    · rw [clocked, he]
      exact ⟨h.enabled, h.trigger⟩
    · have hu := hq.emitted.ungated h
      rw [clocked, he]
      exact ⟨hu.enabled, hu.trigger⟩
  have hcommon : Ungated p.headerCommon := (ticks_headerTimeout p.clocked).emitted.ungated hcheck
  refine headerDone_cases (I := Ungated) ?_ (fun q hq => ?_) (fun _ => ?_)
  · have hevent := hcommon.statusEvent (p.headerCommon.byteAt 3 &&& 0x0f).toNat
      (flag (p.headerCommon.byteAt 3) 0x10) (flag (p.headerCommon.byteAt 3) 0x20)
      (speedField (p.headerCommon.byteAt 3))
    exact ⟨hevent.enabled, hevent.trigger⟩
  · have hu := hq.emitted.ungated hcommon
    exact ⟨hu.enabled, hu.trigger⟩
  · exact ⟨hcommon.enabled, hcommon.trigger⟩

theorem Ungated.captureSm {p : Packet β} (h : Ungated p) (b : β) : Ungated (p.captureSm b) := by
  have hpush : Ungated (p.pushed b) := by
    rw [pushed, startFrame]
    split <;> exact ⟨h.enabled, h.trigger⟩
  refine captureSm_cases (fun _ => hpush) (fun _ => hpush.headerDone) (fun _ => ?_)
  have hu := (emitted_dataEvent { p.pushed b with captureHeader := true }).ungated
    ⟨hpush.enabled, hpush.trigger⟩
  exact ⟨hu.enabled, hu.trigger⟩

/-! ## Sessions -/

theorem Prompt.captureSm {p : Packet β} {b : β} (h : Prompt p) (hf : Forward (p, b)) :
    Prompt (p.captureSm b) := by
  have hu := h.ungated.captureSm b
  have ht := h.timed.captureSm hf
  by_cases he : p.endsHeader b = true
  · exact ⟨ht, hu, (captureSm_within h.timed hf he hu.enabled).2⟩
  · exact h.writes (writes_captureSm he) ht.ordered hu

theorem Prompt.call {p : Packet β} (h : Prompt p) {c : PacketCall β} (hc : c ≠ .announce)
    (hfeed : ∀ data, c ≠ .feed data) : Prompt (p.call c) := by
  cases c with
  | announce => exact absurd rfl hc
  | feed data => exact absurd rfl (hfeed data)
  | rsync => exact h.captureInfo (m := .linkLoss) trivial
  | info msg => exact h.captureInfo (m := .plain msg) trivial
  | stopInfo reason => exact h.captureInfo (m := .stopped reason) trivial

/-- The clock goes forward, by less than 100 ms. The headers of a device
are at most two turns of its 20-bit timestamp apart, 35 ms. -/
def Steady (s : Packet β × β) : Prop :=
  Forward s ∧ (s.1.captureSm s.2).captureTs.toNat < s.1.captureTs.toNat + 100000000

theorem byteMoment_near {s : Packet β × β} (h : Steady s) :
    s.1.captureTs ≤ (byteMoment s).now ∧
      (byteMoment s).now.toNat < s.1.captureTs.toNat + 100000000 := by
  show s.1.captureTs ≤ s.1.writeTs s.2 ∧ (s.1.writeTs s.2).toNat < s.1.captureTs.toNat + 100000000
  rw [writeTs]
  split
  · exact ⟨UInt64.le_refl _, by omega⟩
  · exact h

/-- Every line state of such a session is written in time. -/
theorem runMoments_age_lt {calls : List (PacketCall β)} {p : Packet β} (h : Prompt p)
    (hc : .announce ∉ calls) (hs : ∀ s ∈ p.runSteps calls, Steady s) :
    ∀ m ∈ p.runMoments calls, m.before.captureSavedLs ≠ lsInvalid → m.age < 2 ^ 31 := by
  induction calls generalizing p with
  | nil => exact fun m hm => (List.not_mem_nil hm).elim
  | cons c cs ih =>
      have hne : c ≠ .announce := fun he => hc (he ▸ List.mem_cons_self)
      have hcs : .announce ∉ cs := fun hm => hc (List.mem_cons_of_mem c hm)
      have hlater : ∀ s ∈ (p.call c).runSteps cs, Steady s :=
        fun s hm => hs s (List.mem_append_right _ hm)
      intro m hm hpending
      rw [runMoments] at hm
      by_cases hfeed : ∃ data, c = .feed data
      · obtain ⟨data, rfl⟩ := hfeed
        have hfirst : ∀ s ∈ p.feedSteps data, Steady s :=
          fun s hm => hs s (List.mem_append_left _ hm)
        have hsteps := feed_steps_induction (I := Prompt) (Q := Steady)
          (fun _ _ _ hq hi => hi.captureSm hq.1) h hfirst
        rcases List.mem_append.mp hm with hm | hm
        · obtain ⟨s, hmem, rfl⟩ := List.mem_map.mp hm
          obtain ⟨hle, hnear⟩ := byteMoment_near (hfirst s hmem)
          exact (hsteps.1 s hmem).2.age_lt hpending hle hnear
        · exact ih hsteps.2 hcs hlater m hm hpending
      · have hother : ∀ data, c ≠ .feed data := fun data he => hfeed ⟨data, he⟩
        rcases List.mem_append.mp hm with hm | hm
        · have hone : m = ⟨p, p.captureTs, p.call c⟩ := by
            cases c with
            | feed data => exact absurd rfl (hother data)
            | _ => exact List.mem_singleton.mp hm
          subst hone
          exact h.age_lt hpending (UInt64.le_refl _) (Nat.lt_add_of_pos_right (by norm_num))
        · exact ih (h.call hne hother) hcs hlater m hm hpending

theorem prompt_announce {opts : PacketOpts} (ht : opts.captureTrigger = .disabled) :
    Prompt (announce (new opts : Packet β)) := by
  have hnew : (new opts : Packet β).opts.captureTrigger = .disabled := ht
  have htimed := timed_announce (β := β) opts
  rw [announce, if_pos hnew, captureInfo_eq] at htimed ⊢
  refine ⟨htimed, ⟨rfl, ht⟩, ?_⟩
  show ((0 : UInt64).toNat : Int) - (0 : UInt64).toNat ≤ updateInterval
  decide

theorem suffixSafe_of_lt {age : Nat} (h : age < 2 ^ 31) : SuffixSafe age := by
  rw [SuffixSafe, Nat.mod_eq_of_lt (by omega)]
  omega

/-- **Without a trigger the decisions on elapsed time are right.** -/
theorem elapsed_ungated {opts : PacketOpts} (ht : opts.captureTrigger = .disabled)
    {calls : List (PacketCall β)} (hc : .announce ∉ calls)
    (hs : ∀ s ∈ (announce (new opts : Packet β)).runSteps calls, Steady s) :
    Elapsed opts (.announce :: calls) := by
  have hage := runMoments_age_lt (prompt_announce ht) hc hs
  have hlater : ∀ {m : Moment β}, m ∈ (new opts : Packet β).runMoments (.announce :: calls) →
      m.before.captureSavedLs ≠ lsInvalid → m.age < 2 ^ 31 := by
    intro m hm hpending
    rcases List.mem_append.mp hm with hm | hm
    · -- nothing is pending before the capture starts
      rw [List.mem_singleton.mp hm] at hpending
      exact absurd rfl hpending
    · exact hage m hm hpending
  refine ⟨fun m hm d hd => ?_, fun s hmem hk => ?_⟩
  · obtain ⟨ts, name, hadds⟩ := hd
    have hpending := (runMoments_shows _ _ m hm ts name d hadds).1
    exact (notes_right_iff hm ⟨ts, name, hadds⟩).mpr (suffixSafe_of_lt (hlater hm hpending))
  · have hlt := hlater (byteMoment_mem hmem) hk.lineDelta_eq.1
    exact (classified_right_iff hk).mpr (Nat.lt_trans hlt (by norm_num))

end UsbSniffer.Packet
