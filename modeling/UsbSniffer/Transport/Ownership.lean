import UsbSniffer.Transport.Libusb

/-!
# The spare buffer and who owns what

`in_callback` moves buffers between the transfers and the one spare. Over
every run of the pool the buffers the driver may write to and the spare
stay different ones, and the buffer a feed callback reads is never the
driver's.

What the callbacks keep is `Owned`, which is about all transfers and not
only the submitted ones: a transfer that could not be taken back keeps
its buffer, and the next swap may hand it out again.
-/

namespace UsbSniffer.Transport

/-- The driver's buffers are different ones, and the spare is none of
them. -/
structure Exclusive (p : Priv) : Prop where
  apart : ∀ i j b, p.inTransfers i = some ⟨b, true⟩ → p.inTransfers j = some ⟨b, true⟩ → i = j
  spare_apart : ∀ b, p.spare = some b → ¬ p.Driven b

theorem Owned.exclusive {p : Priv} (h : Owned p) : Exclusive p :=
  ⟨fun i j _ hi hj => h.apart i j _ _ hi hj rfl, fun _ hb => h.spare_not_driven hb⟩

/-- The state after some callbacks. -/
def after (p : Priv) : List Completion → Priv
  | [] => p
  | e :: events => after (inCallback p e).1 events

/-- The calls of the feed callback during them. -/
def feedCalls (p : Priv) : List Completion → List FeedCall
  | [] => []
  | e :: events => (inCallback p e).2.toList ++ feedCalls (inCallback p e).1 events

/-- What is read is not the driver's, and nothing else is shared. -/
structure FeedCall.Undisturbed (call : FeedCall) : Prop where
  exclusive : Exclusive call.reader
  not_driven : ¬ call.reader.Driven call.buffer

/-- What a callback returns to the run. -/
structure Kept (r : Priv × Option FeedCall) : Prop where
  owned : Owned r.1
  undisturbed : ∀ call ∈ r.2, call.Undisturbed

theorem Kept.of_owned {p : Priv} (h : Owned p) : Kept (p, none) :=
  ⟨h, fun call hc => by cases hc⟩

/-! ## One callback -/

theorem Owned.drive {p : Priv} (h : Owned p) (w : Mem) : Owned (p.drive w) :=
  h.congr (drive_inTransfers p w) (drive_spare p w)

theorem Owned.callFeed {p : Priv} (h : Owned p) {b : Nat} (hb : ¬ p.Driven b) (len : Nat) :
    ∀ call ∈ callFeed p b len, call.Undisturbed := by
  intro call hcall
  rw [Transport.callFeed] at hcall
  split at hcall
  · cases hcall
    exact ⟨h.exclusive, hb⟩
  · cases hcall

/-- Fed first, the buffer is still the host's. -/
theorem Owned.feedAndSubmit {p : Priv} (h : Owned p) (e : Completion) {b : Nat}
    (hb : p.inTransfers e.transfer = some ⟨b, false⟩) : Kept (feedAndSubmit p e b) := by
  have hd := h.drive e.during
  have hb' : (p.drive e.during).inTransfers e.transfer = some ⟨b, false⟩ := by
    rw [drive_inTransfers, hb]
  have hcalls := hd.callFeed (hd.not_driven hb') e.actualLength
  by_cases hrc : e.rc < 0
  · simp only [Transport.feedAndSubmit, if_pos hrc]
    exact ⟨hd.congr rfl rfl, hcalls⟩
  · simp only [Transport.feedAndSubmit, if_neg hrc]
    exact ⟨hd.setSubmitted hb' true, hcalls⟩

/-- Swapped first, the buffer is the spare while it is read, and the
driver has the other one. A transfer that is not taken back gets its
buffer again, and the spare is given up. -/
theorem Owned.swapAndSubmit {p : Priv} (h : Owned p) (e : Completion) {b spare : Nat}
    (hb : p.inTransfers e.transfer = some ⟨b, false⟩) (hs : p.spare = some spare) :
    Kept (swapAndSubmit p e b spare) := by
  by_cases hrc : e.rc < 0
  · have hback := h.setSubmitted hb false
    simp only [Transport.swapAndSubmit, if_pos hrc]
    refine Kept.of_owned ⟨hback.apart, ?_⟩
    intro i ti _ hnone
    cases hnone
  · have hswapped := (h.swap hb hs true).drive e.during
    have hspare : Priv.spare (Priv.drive
        { p.setTransfer e.transfer (some ⟨spare, true⟩) with spare := some b } e.during) =
          some b := drive_spare _ _
    simp only [Transport.swapAndSubmit, if_neg hrc]
    exact ⟨hswapped.congr rfl hspare.symm,
      hswapped.callFeed (hswapped.spare_not_driven hspare) e.actualLength⟩

/-- **One callback keeps the ownership**, whatever libusb reports. -/
theorem Owned.inCallback {p : Priv} (h : Owned p) (e : Completion) : Kept (inCallback p e) := by
  have hd := h.drive e.before
  simp only [Transport.inCallback]
  cases htr : (p.drive e.before).inTransfers e.transfer with
  | none => exact Kept.of_owned hd
  | some tr =>
      have hback := hd.setSubmitted htr false
      have hself := setTransfer_self (p.drive e.before) e.transfer (some ⟨tr.buffer, false⟩)
      have hfeed := hback.feedAndSubmit e hself
      dsimp only
      split
      · exact Kept.of_owned hback
      · split
        · exact Kept.of_owned (hback.congr rfl rfl)
        · split
          · exact Kept.of_owned hback
          · split
            · rename_i spare hspare
              split
              · exact hback.swapAndSubmit e hself hspare
              · exact hfeed
            · exact hfeed

/-! ## Every run of the pool -/

theorem Owned.after {p : Priv} (h : Owned p) (events : List Completion) :
    Owned (after p events) := by
  induction events generalizing p with
  | nil => exact h
  | cons e events ih => exact ih (h.inCallback e).owned

theorem Owned.feedCalls {p : Priv} (h : Owned p) (events : List Completion) :
    ∀ call ∈ feedCalls p events, call.Undisturbed := by
  induction events generalizing p with
  | nil =>
      intro call hcall
      cases hcall
  | cons e events ih =>
      have hkept := h.inCallback e
      intro call hcall
      rw [Transport.feedCalls, List.mem_append, Option.mem_toList] at hcall
      rcases hcall with hnow | hlater
      · exact hkept.undisturbed call hnow
      · exact ih hkept.owned call hlater

/-- **The swap keeps ownership exclusive.** From a pool armed with
different buffers, after every sequence of completions the driver's
buffers and the spare are pairwise different, and no feed callback during
it reads a buffer of the driver. -/
theorem after_exclusive (p₀ p : Priv) (buffer : Fin transferCount → Nat) (spare : Nat)
    (arming : Fin transferCount → Arming) (events : List Completion)
    (hdown : p₀.streamsUp = false) (hbuffer : BuffersApart buffer arming)
    (hspare : SpareApart buffer (p₀.spare.getD spare) arming)
    (hp : tlSubmitInPool p₀ buffer spare arming = some p) :
    Exclusive (after p events) ∧
      ∀ call ∈ feedCalls p events, Exclusive call.reader ∧ ¬ call.reader.Driven call.buffer := by
  have howned := owned_tlSubmitInPool hdown hbuffer hspare hp
  refine ⟨(howned.after events).exclusive, fun call hcall => ?_⟩
  have hread := howned.feedCalls events call hcall
  exact ⟨hread.exclusive, hread.not_driven⟩

/-- Two bytes arrive and are read from the buffer that becomes the
spare; then the spare is lost. -/
theorem after_exclusive_emptyFailure :
    Exclusive (after armedPool emptyFailure) ∧
      ∀ call ∈ feedCalls armedPool emptyFailure,
        Exclusive call.reader ∧ ¬ call.reader.Driven call.buffer :=
  after_exclusive (opened (fun _ _ => 0)) armedPool (fun i => i.val) 16 (fun _ => ⟨true, 0⟩)
    emptyFailure rfl (fun _ _ _ _ => Fin.ext) (fun i _ => Nat.ne_of_lt i.isLt) armedPool_eq

end UsbSniffer.Transport
