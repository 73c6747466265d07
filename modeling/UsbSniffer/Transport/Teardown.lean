import UsbSniffer.Transport.Ownership

/-!
# Taking the IN pool down

`tl_teardown_io` of `transport_libusb.c`. It sets `closing`, cancels
every transfer, and handles events until the callbacks have run; then it
frees what `in_transfers` and `in_buffers` hold.

The swaps of `in_callback` have moved the buffers around by then: what a
transfer holds is not the `in_buffers` entry of its index any more, and
one of the buffers that are freed may be the spare. `teardown_safe` says
that each one that `tl_submit_in_pool` has put into `in_buffers` is freed
once, and nothing is fed or taken back since `closing` was set; and that
the driver holds no buffer then, as long as every transfer had its
callback. What was allocated as the spare is never freed.
-/

namespace UsbSniffer.Transport

/-- `in_buffers[i]`, as `tl_submit_in_pool` leaves it. -/
def inBuffer (buffer : Fin transferCount → Nat) (arming : Fin transferCount → Arming)
    (i : Fin transferCount) : Option Nat :=
  (armed buffer arming i).map Transfer.buffer

/-- `tl_teardown_io` up to the drain. Cancelling changes nothing here: it
makes libusb call back. -/
def beginTeardown (p : Priv) : Priv := { p with closing := true }

/-- The turns of the loop that frees the transfers. -/
def releasing (p : Priv) : List (Fin transferCount) :=
  (List.finRange transferCount).filter fun i => (p.inTransfers i).isSome

/-- Behind the drain: what is freed, and the pool without it. -/
def release (p : Priv) (inBuffers : Fin transferCount → Option Nat) : List Nat × Priv :=
  ((releasing p).filterMap inBuffers,
    { p with inTransfers := fun _ => none, streamsUp := false })

/-! ## Which transfers there are -/

/-- A callback changes neither which transfers there are nor `closing`. -/
theorem inCallback_shape (p : Priv) (e : Completion) :
    (∀ i, ((inCallback p e).1.inTransfers i).isSome = (p.inTransfers i).isSome) ∧
      (inCallback p e).1.closing = p.closing := by
  have hset : ∀ (q : Priv) (tr : Transfer), (q.inTransfers e.transfer).isSome = true →
      ∀ i, ((q.setTransfer e.transfer (some tr)).inTransfers i).isSome =
        (q.inTransfers i).isSome := by
    intro q tr hq i
    by_cases hi : i = e.transfer
    · rw [hi, setTransfer_self, hq]
      rfl
    · rw [setTransfer_other _ hi]
  have hsubmit : ∀ (q : Priv) (b : Nat), (q.inTransfers e.transfer).isSome = true →
      (∀ i, ((feedAndSubmit q e b).1.inTransfers i).isSome = (q.inTransfers i).isSome) ∧
        (feedAndSubmit q e b).1.closing = q.closing := by
    intro q b hq
    by_cases hrc : e.rc < 0
    · simp only [feedAndSubmit, if_pos hrc, drive_inTransfers, drive_closing, implies_true,
        and_self]
    · simp only [feedAndSubmit, if_neg hrc, setTransfer_closing, drive_closing, and_true]
      intro i
      rw [hset _ _ (by rw [drive_inTransfers]; exact hq), drive_inTransfers]
  have hswap : ∀ (q : Priv) (b c : Nat), (q.inTransfers e.transfer).isSome = true →
      (∀ i, ((swapAndSubmit q e b c).1.inTransfers i).isSome = (q.inTransfers i).isSome) ∧
        (swapAndSubmit q e b c).1.closing = q.closing := by
    intro q b c hq
    by_cases hrc : e.rc < 0
    · simp only [swapAndSubmit, if_pos hrc, setTransfer_closing, and_true]
      exact hset q _ hq
    · simp only [swapAndSubmit, if_neg hrc, drive_inTransfers, drive_closing, setTransfer_closing,
        and_true]
      exact hset q _ hq
  rw [inCallback]
  cases htr : (p.drive e.before).inTransfers e.transfer with
  | none => simp only [drive_inTransfers, drive_closing, implies_true, and_self]
  | some tr =>
      have hsome : ((p.drive e.before).inTransfers e.transfer).isSome = true := by rw [htr]; rfl
      have hback := hset (p.drive e.before) ⟨tr.buffer, false⟩ hsome
      have hsome' := (hback e.transfer).trans hsome
      rw [drive_inTransfers] at hback
      dsimp only
      have hthen : ∀ r : Priv × Option FeedCall,
          (∀ i, (r.1.inTransfers i).isSome = (((p.drive e.before).setTransfer e.transfer
            (some ⟨tr.buffer, false⟩)).inTransfers i).isSome) ∧
            r.1.closing = ((p.drive e.before).setTransfer e.transfer
              (some ⟨tr.buffer, false⟩)).closing →
          (∀ i, (r.1.inTransfers i).isSome = (p.inTransfers i).isSome) ∧
            r.1.closing = p.closing := fun r hr =>
        ⟨fun i => (hr.1 i).trans (hback i),
          hr.2.trans ((setTransfer_closing _ _ _).trans (drive_closing _ _))⟩
      split
      · exact hthen _ ⟨fun _ => rfl, rfl⟩
      · split
        · exact hthen _ ⟨fun _ => rfl, rfl⟩
        · split
          · exact hthen _ ⟨fun _ => rfl, rfl⟩
          · split
            · split
              · exact hthen _ (hswap _ _ _ hsome')
              · exact hthen _ (hsubmit _ _ hsome')
            · exact hthen _ (hsubmit _ _ hsome')

theorem after_shape (p : Priv) (events : List Completion) :
    (∀ i, ((after p events).inTransfers i).isSome = (p.inTransfers i).isSome) ∧
      (after p events).closing = p.closing := by
  induction events generalizing p with
  | nil => exact ⟨fun _ => rfl, rfl⟩
  | cons e events ih =>
      obtain ⟨hsome, hclosing⟩ := inCallback_shape p e
      obtain ⟨hsome', hclosing'⟩ := ih (inCallback p e).1
      exact ⟨fun i => (hsome' i).trans (hsome i), hclosing'.trans hclosing⟩

/-! ## The drain -/

/-- **A callback while closing** hands its transfer back and does nothing
else: no call, and no other transfer changes hands. -/
theorem inCallback_closing {p : Priv} (h : p.closing = true) (e : Completion) :
    (inCallback p e).2 = none ∧
      (∀ b, (inCallback p e).1.inTransfers e.transfer ≠ some ⟨b, true⟩) ∧
        ∀ j, j ≠ e.transfer → (inCallback p e).1.inTransfers j = p.inTransfers j := by
  rw [inCallback]
  cases htr : (p.drive e.before).inTransfers e.transfer with
  | none =>
      refine ⟨rfl, fun b hb => ?_, fun j _ => congrFun (drive_inTransfers _ _) j⟩
      rw [htr] at hb
      cases hb
  | some tr =>
      dsimp only
      rw [if_pos ((setTransfer_closing _ _ _).trans ((drive_closing _ _).trans h))]
      refine ⟨rfl, fun b hb => ?_, fun j hj => ?_⟩
      · rw [setTransfer_self] at hb
        cases hb
      · rw [setTransfer_other _ hj, drive_inTransfers]

/-- The drain feeds nothing. A transfer the driver holds behind it is one
that it held before and that was not called back. -/
theorem drain_closing {p : Priv} (h : p.closing = true) (drain : List Completion) :
    feedCalls p drain = [] ∧
      ∀ i b, (after p drain).inTransfers i = some ⟨b, true⟩ →
        p.inTransfers i = some ⟨b, true⟩ ∧ ∀ e ∈ drain, e.transfer ≠ i := by
  induction drain generalizing p with
  | nil => exact ⟨rfl, fun i b hb => ⟨hb, fun e he => absurd he List.not_mem_nil⟩⟩
  | cons e drain ih =>
      obtain ⟨hcall, hself, hother⟩ := inCallback_closing h e
      obtain ⟨hfeed, hheld⟩ := ih ((inCallback_shape p e).2.trans h)
      refine ⟨by rw [feedCalls, hcall, hfeed]; rfl, fun i b hb => ?_⟩
      obtain ⟨hi, hdrain⟩ := hheld i b hb
      have hne : i ≠ e.transfer := by
        rintro rfl
        exact hself b hi
      refine ⟨by rw [← hother i hne]; exact hi, fun f hf => ?_⟩
      rcases List.mem_cons.mp hf with rfl | hf
      · exact hne.symm
      · exact hdrain f hf

/-! ## The whole -/

/-- Different transfers have different `in_buffers`. -/
theorem inBuffer_inj {buffer : Fin transferCount → Nat} {arming : Fin transferCount → Arming}
    (hbuffer : BuffersApart buffer arming) {i j : Fin transferCount} {b : Nat}
    (hi : inBuffer buffer arming i = some b) (hj : inBuffer buffer arming j = some b) : i = j := by
  obtain ⟨ti, hti, rfl⟩ := Option.map_eq_some_iff.mp hi
  obtain ⟨tj, htj, heq⟩ := Option.map_eq_some_iff.mp hj
  rw [armed_buffer hti, armed_buffer htj] at heq
  exact (hbuffer j i (isSome_of_armed htj) (isSome_of_armed hti) heq).symm

/-- What is freed are the `in_buffers` of the armed transfers. -/
theorem mem_release {p₀ p : Priv} {buffer : Fin transferCount → Nat} {spare : Nat}
    {arming : Fin transferCount → Arming} (hdown : p₀.streamsUp = false)
    (hp : tlSubmitInPool p₀ buffer spare arming = some p) (events drain : List Completion)
    {b : Nat} :
    b ∈ (release (after (beginTeardown (after p events)) drain) (inBuffer buffer arming)).1 ↔
      ∃ i, inBuffer buffer arming i = some b := by
  have htransfers : p.inTransfers = armed buffer arming := by
    rw [tlSubmitInPool, if_neg (by rw [hdown]; exact Bool.false_ne_true)] at hp
    split at hp
    · cases hp
      rfl
    · cases hp
  have hsome : ∀ i, ((after (beginTeardown (after p events)) drain).inTransfers i).isSome =
      (inBuffer buffer arming i).isSome := by
    intro i
    have hthere : (inBuffer buffer arming i).isSome = (armed buffer arming i).isSome :=
      Option.isSome_map
    rw [hthere, ← htransfers]
    exact ((after_shape (beginTeardown (after p events)) drain).1 i).trans ((after_shape p events).1 i)
  rw [release, List.mem_filterMap]
  constructor
  · rintro ⟨i, -, hi⟩
    exact ⟨i, hi⟩
  · rintro ⟨i, hi⟩
    refine ⟨i, List.mem_filter.mpr ⟨List.mem_finRange i, ?_⟩, hi⟩
    rw [hsome, hi]
    rfl

/-- The allocation of the spare is none of `in_buffers`. -/
theorem inBuffer_ne_spare {buffer : Fin transferCount → Nat} {spare : Nat}
    {arming : Fin transferCount → Arming} (hspare : SpareApart buffer spare arming)
    (i : Fin transferCount) : inBuffer buffer arming i ≠ some spare := by
  intro hi
  obtain ⟨tr, htr, heq⟩ := Option.map_eq_some_iff.mp hi
  exact hspare i (isSome_of_armed htr) ((armed_buffer htr).symm.trans heq)

/-- **Teardown is safe.** Take the pool as `tl_submit_in_pool` arms it,
after any callbacks, and call `tl_teardown_io`. Whatever callbacks run in
the drain, none of them feeds anything or gives a transfer back to the
driver. If every transfer the driver holds is called back, it holds no
buffer when they are freed. Exactly the buffers in `in_buffers` are
freed, each one once; what was allocated as the spare is not among them
and is never freed. -/
theorem teardown_safe (p₀ p : Priv) (buffer : Fin transferCount → Nat) (spare : Nat)
    (arming : Fin transferCount → Arming) (events drain : List Completion)
    (hdown : p₀.streamsUp = false) (hbuffer : BuffersApart buffer arming)
    (hp : tlSubmitInPool p₀ buffer spare arming = some p) :
    let q := after (beginTeardown (after p events)) drain
    feedCalls (beginTeardown (after p events)) drain = [] ∧
      (∀ b, q.Driven b → (after p events).Driven b) ∧
        ((∀ i b, (after p events).inTransfers i = some ⟨b, true⟩ → ∃ e ∈ drain, e.transfer = i) →
          ∀ b, ¬ q.Driven b) ∧
        (release q (inBuffer buffer arming)).1.Nodup ∧
          (∀ b, b ∈ (release q (inBuffer buffer arming)).1 ↔
            ∃ i, inBuffer buffer arming i = some b) ∧
          (SpareApart buffer (p₀.spare.getD spare) arming →
            p₀.spare.getD spare ∉ (release q (inBuffer buffer arming)).1) := by
  intro q
  have hclosing : (beginTeardown (after p events)).closing = true := rfl
  obtain ⟨hfeed, hheld⟩ := drain_closing hclosing drain
  have hfreed : ∀ b, b ∈ (release q (inBuffer buffer arming)).1 ↔
      ∃ i, inBuffer buffer arming i = some b := fun b => mem_release hdown hp events drain
  refine ⟨hfeed, ?_, ?_, ?_, hfreed, ?_⟩
  · rintro b ⟨i, hi⟩
    exact ⟨i, (hheld i b hi).1⟩
  · rintro hdrained b ⟨i, hi⟩
    obtain ⟨hi, hnone⟩ := hheld i b hi
    obtain ⟨e, he, hei⟩ := hdrained i b hi
    exact hnone e he hei
  · refine ((List.nodup_finRange transferCount).filter _).filterMap ?_
    intro i j b hi hj
    exact inBuffer_inj hbuffer hi hj
  · intro hspare hmem
    obtain ⟨i, hi⟩ := (hfreed _).mp hmem
    exact inBuffer_ne_spare hspare i hi

/-- Every transfer is cancelled. -/
def cancelAll : List Completion :=
  (List.finRange transferCount).map fun i =>
    { transfer := i, status := .cancelled, actualLength := 0, rc := 0,
      before := fun _ _ => 0, during := fun _ _ => 0 }

theorem teardown_safe_emptyFailure :
    (∀ b, ¬ (after (beginTeardown (after armedPool emptyFailure)) cancelAll).Driven b) ∧
      (release (after (beginTeardown (after armedPool emptyFailure)) cancelAll)
        (inBuffer (fun i => i.val) fun _ => ⟨true, 0⟩)).1.Nodup ∧
      16 ∉ (release (after (beginTeardown (after armedPool emptyFailure)) cancelAll)
        (inBuffer (fun i => i.val) fun _ => ⟨true, 0⟩)).1 := by
  obtain ⟨-, -, hdriven, hnodup, -, hspare⟩ :=
    teardown_safe (opened (fun _ _ => 0)) armedPool (fun i => i.val) 16 (fun _ => ⟨true, 0⟩)
      emptyFailure cancelAll rfl (fun _ _ _ _ => Fin.ext) armedPool_eq
  refine ⟨hdriven ?_, hnodup, hspare fun i _ => Nat.ne_of_lt i.isLt⟩
  intro i b _
  exact ⟨_, List.mem_map.mpr ⟨i, List.mem_finRange i, rfl⟩, rfl⟩

end UsbSniffer.Transport
