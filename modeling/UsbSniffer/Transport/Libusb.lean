import Mathlib.Tactic

/-!
# The IN pool of the libusb transport

`tl_submit_in_pool` and `in_callback` of `transport_libusb.c`: sixteen
transfers whose buffers the driver fills, and one spare buffer that is
swapped in, so that a completed transfer goes back to the driver before
its bytes are parsed.

The driver is the other party. It owns the buffers of the transfers that
are submitted, and writes to them whenever it likes: before a completion
and while the callback runs. A completion hands one transfer back.

A callback that swaps and then fails to resubmit returns without feeding
what arrived. After that the spare is gone and every later callback
feeds first, so a run loses the bytes of one transfer at most, and
`fed_eq_received_iff` says when.
-/

namespace UsbSniffer.Transport

/-- `TRANSFER_SIZE`. -/
def transferSize : Nat := 256 * 1024

/-- `TRANSFER_COUNT`. -/
def transferCount : Nat := 16

/-- `enum libusb_transfer_status`. -/
inductive Status where
  | completed
  | error
  | timedOut
  | cancelled
  | stall
  | noDevice
  | overflow
deriving Repr, DecidableEq

/-- The bytes of every buffer. A buffer is named by its address. -/
abbrev Mem := Nat → Nat → UInt8

/-- `struct libusb_transfer`; the driver owns it while it is
submitted. -/
structure Transfer where
  buffer : Nat
  submitted : Bool
deriving Repr, DecidableEq

/-- What `libusb_priv` and the transport hold of the pool, and the
memory. A null pointer is `none`; `feed` says that a feed callback is
set. -/
structure Priv where
  inTransfers : Fin transferCount → Option Transfer
  spare : Option Nat
  alive : Bool
  streamsUp : Bool
  closing : Bool
  feed : Bool
  mem : Mem

/-- The driver owns the buffer. -/
def Priv.Driven (p : Priv) (b : Nat) : Prop := ∃ i, p.inTransfers i = some ⟨b, true⟩

instance (p : Priv) (b : Nat) : Decidable (p.Driven b) :=
  inferInstanceAs (Decidable (∃ i, p.inTransfers i = some ⟨b, true⟩))

/-- The driver writes what it likes to the buffers it owns. -/
def Priv.drive (p : Priv) (written : Mem) : Priv :=
  { p with mem := fun b => if p.Driven b then written b else p.mem b }

/-- The first bytes of a buffer. -/
def Priv.bytes (p : Priv) (b len : Nat) : List UInt8 := (List.range len).map (p.mem b)

def Priv.setTransfer (p : Priv) (i : Fin transferCount) (tr : Option Transfer) : Priv :=
  { p with inTransfers := Function.update p.inTransfers i tr }

/-- One invocation of `in_callback`: the transfer, what libusb put in
it, the result of the `libusb_submit_transfer` of this callback, and
what the driver has written before it and writes during it. -/
structure Completion where
  transfer : Fin transferCount
  status : Status
  actualLength : Nat
  rc : Int
  before : Mem
  during : Mem

/-- A call of the feed callback: the state in which it reads, the
buffer, and the bytes. -/
structure FeedCall where
  reader : Priv
  buffer : Nat
  bytes : List UInt8

/-- `if (len > 0 && t->cb.feed) t->cb.feed(…)`. -/
def callFeed (p : Priv) (b len : Nat) : Option FeedCall :=
  if len > 0 ∧ p.feed = true then some ⟨p, b, p.bytes b len⟩ else none

/-- The branch of `in_callback` that swaps in the spare. -/
def swapAndSubmit (p : Priv) (e : Completion) (mine spare : Nat) : Priv × Option FeedCall :=
  if e.rc < 0 then
    ({ p.setTransfer e.transfer (some ⟨mine, false⟩) with alive := false, spare := none }, none)
  else
    let p := ({ p.setTransfer e.transfer (some ⟨spare, true⟩) with spare := some mine }).drive e.during
    ({ p with spare := some mine }, callFeed p mine e.actualLength)

/-- The branch that feeds first. -/
def feedAndSubmit (p : Priv) (e : Completion) (mine : Nat) : Priv × Option FeedCall :=
  let p := p.drive e.during
  let call := callFeed p mine e.actualLength
  if e.rc < 0 then ({ p with alive := false }, call)
  else (p.setTransfer e.transfer (some ⟨mine, true⟩), call)

/-- `in_callback`. -/
def inCallback (p : Priv) (e : Completion) : Priv × Option FeedCall :=
  let p := p.drive e.before
  match p.inTransfers e.transfer with
  | none => (p, none)
  | some tr =>
      -- the completed transfer is the host's again
      let p := p.setTransfer e.transfer (some ⟨tr.buffer, false⟩)
      if p.closing then (p, none)
      else if e.status = .noDevice then ({ p with alive := false }, none)
      else if e.status = .cancelled then (p, none)
      else
        match p.spare with
        | some spare =>
            if e.actualLength < transferSize then swapAndSubmit p e tr.buffer spare
            else feedAndSubmit p e tr.buffer
        | none => feedAndSubmit p e tr.buffer

/-- One turn of the arming loop: whether `libusb_alloc_transfer` gives a
transfer, and the result of submitting it. -/
structure Arming where
  allocated : Bool
  rc : Int
deriving Repr, DecidableEq

/-- What a turn leaves in `in_transfers[i]`. -/
def armed (buffer : Fin transferCount → Nat) (arming : Fin transferCount → Arming)
    (i : Fin transferCount) : Option Transfer :=
  if (arming i).allocated = true ∧ ¬ (arming i).rc < 0 then some ⟨buffer i, true⟩ else none

/-- The buffers of the armed transfers are different ones. The buffer of
a transfer that could not be armed was freed, and its address may have
been given out again. -/
def BuffersApart (buffer : Fin transferCount → Nat) (arming : Fin transferCount → Arming) : Prop :=
  ∀ i j, (armed buffer arming i).isSome = true → (armed buffer arming j).isSome = true →
    buffer i = buffer j → i = j

/-- The spare is none of them. -/
def SpareApart (buffer : Fin transferCount → Nat) (spare : Nat)
    (arming : Fin transferCount → Arming) : Prop :=
  ∀ i, (armed buffer arming i).isSome = true → buffer i ≠ spare

/-- `tl_submit_in_pool` on an open handle; `buffer` and `spare` are what
`os_alloc` returns. Without any armed transfer the program stops. -/
def tlSubmitInPool (p : Priv) (buffer : Fin transferCount → Nat) (spare : Nat)
    (arming : Fin transferCount → Arming) : Option Priv :=
  if p.streamsUp then some p
  else if ∃ i, (armed buffer arming i).isSome = true then
    some
      { p with
        inTransfers := armed buffer arming
        spare := some (p.spare.getD spare)
        streamsUp := true }
  else none

/-- The pool as `tl_open` leaves it, with the feed callback set. -/
def opened (mem : Mem) : Priv :=
  { inTransfers := fun _ => none, spare := none, alive := true, streamsUp := false,
    closing := false, feed := true, mem := mem }

/-! ## What was received and what is fed -/

/-- The first `actual_length` bytes of the completed transfer's
buffer. -/
def receivedBytes (p : Priv) (e : Completion) : List UInt8 :=
  match (p.drive e.before).inTransfers e.transfer with
  | none => []
  | some tr => (p.drive e.before).bytes tr.buffer e.actualLength

/-- The bytes of a call. -/
def callBytes (call : Option FeedCall) : List UInt8 :=
  match call with
  | none => []
  | some call => call.bytes

/-- The bytes a callback feeds. -/
def fedBytes (p : Priv) (e : Completion) : List UInt8 := callBytes (inCallback p e).2

/-- Everything received during some callbacks, in their order. -/
def received (p : Priv) : List Completion → List UInt8
  | [] => []
  | e :: events => receivedBytes p e ++ received (inCallback p e).1 events

/-- Everything fed. -/
def fed (p : Priv) : List Completion → List UInt8
  | [] => []
  | e :: events => fedBytes p e ++ fed (inCallback p e).1 events

/-- A callback libusb can make: a submitted transfer is completed with
at most its size. -/
def Completes (p : Priv) (e : Completion) : Prop :=
  (∃ b, p.inTransfers e.transfer = some ⟨b, true⟩) ∧ e.actualLength ≤ transferSize

/-- Callbacks libusb can make one after another. -/
def Possible (p : Priv) : List Completion → Prop
  | [] => True
  | e :: events => Completes p e ∧ Possible (inCallback p e).1 events

/-- Neither cancelled nor unplugged. -/
def Completion.delivers (e : Completion) : Prop := e.status ≠ .cancelled ∧ e.status ≠ .noDevice

/-! ## Ownership -/

/-- The buffers of the transfers and the spare are different ones. -/
structure Owned (p : Priv) : Prop where
  apart : ∀ i j ti tj, p.inTransfers i = some ti → p.inTransfers j = some tj →
    ti.buffer = tj.buffer → i = j
  spare_apart : ∀ i ti, p.inTransfers i = some ti → p.spare ≠ some ti.buffer

@[simp] theorem drive_inTransfers (p : Priv) (w : Mem) :
    (p.drive w).inTransfers = p.inTransfers := by
  simp only [Priv.drive]

@[simp] theorem drive_spare (p : Priv) (w : Mem) : (p.drive w).spare = p.spare := by
  simp only [Priv.drive]

@[simp] theorem drive_closing (p : Priv) (w : Mem) : (p.drive w).closing = p.closing := by
  simp only [Priv.drive]

@[simp] theorem drive_feed (p : Priv) (w : Mem) : (p.drive w).feed = p.feed := by
  simp only [Priv.drive]

@[simp] theorem setTransfer_spare (p : Priv) (i : Fin transferCount) (tr : Option Transfer) :
    (p.setTransfer i tr).spare = p.spare := rfl

@[simp] theorem setTransfer_closing (p : Priv) (i : Fin transferCount) (tr : Option Transfer) :
    (p.setTransfer i tr).closing = p.closing := rfl

@[simp] theorem setTransfer_feed (p : Priv) (i : Fin transferCount) (tr : Option Transfer) :
    (p.setTransfer i tr).feed = p.feed := rfl

@[simp] theorem setTransfer_mem (p : Priv) (i : Fin transferCount) (tr : Option Transfer) :
    (p.setTransfer i tr).mem = p.mem := rfl

/-- A buffer the driver does not own keeps its bytes. -/
theorem bytes_drive {p : Priv} {b : Nat} (h : ¬ p.Driven b) (w : Mem) (len : Nat) :
    (p.drive w).bytes b len = p.bytes b len := by
  simp only [Priv.bytes, Priv.drive, if_neg h]

theorem setTransfer_self (p : Priv) (i : Fin transferCount) (tr : Option Transfer) :
    (p.setTransfer i tr).inTransfers i = tr := Function.update_self _ _ _

theorem setTransfer_other (p : Priv) {i j : Fin transferCount} (h : j ≠ i) (tr : Option Transfer) :
    (p.setTransfer i tr).inTransfers j = p.inTransfers j := Function.update_of_ne h _ _

/-- Ownership is about the pointers only. -/
theorem Owned.congr {p q : Priv} (h : Owned p) (ht : q.inTransfers = p.inTransfers)
    (hs : q.spare = p.spare) : Owned q := by
  refine ⟨?_, ?_⟩
  · rw [ht]
    exact h.apart
  · rw [ht, hs]
    exact h.spare_apart

/-- A transfer may change hands, with its buffer. -/
theorem Owned.setSubmitted {p : Priv} (h : Owned p) {i : Fin transferCount} {tr : Transfer}
    (htr : p.inTransfers i = some tr) (submitted : Bool) :
    Owned (p.setTransfer i (some ⟨tr.buffer, submitted⟩)) := by
  have hbuf : ∀ j tj, (p.setTransfer i (some ⟨tr.buffer, submitted⟩)).inTransfers j = some tj →
      ∃ t, p.inTransfers j = some t ∧ t.buffer = tj.buffer := by
    intro j tj htj
    by_cases hji : j = i
    · subst hji
      rw [setTransfer_self] at htj
      cases htj
      exact ⟨tr, htr, rfl⟩
    · rw [setTransfer_other _ hji] at htj
      exact ⟨tj, htj, rfl⟩
  constructor
  · intro j k tj tk hj hk heq
    obtain ⟨t, ht, hb⟩ := hbuf j tj hj
    obtain ⟨u, hu, hc⟩ := hbuf k tk hk
    exact h.apart j k t u ht hu (by rw [hb, hc, heq])
  · intro j tj hj
    obtain ⟨t, ht, hb⟩ := hbuf j tj hj
    rw [← hb]
    exact h.spare_apart j t ht

/-- The spare and the buffer of a transfer may be exchanged. -/
theorem Owned.swap {p : Priv} (h : Owned p) {i : Fin transferCount} {tr : Transfer}
    (htr : p.inTransfers i = some tr) {spare : Nat} (hs : p.spare = some spare) (submitted : Bool) :
    Owned { p.setTransfer i (some ⟨spare, submitted⟩) with spare := some tr.buffer } := by
  constructor
  · intro j k tj tk hj hk heq
    by_cases hji : j = i
    · by_cases hki : k = i
      · rw [hji, hki]
      · subst hji
        rw [show _ = _ from setTransfer_self p j _] at hj
        rw [show _ = _ from setTransfer_other p hki _] at hk
        cases hj
        exact absurd (hs.trans (congrArg some heq)) (h.spare_apart k tk hk)
    · rw [show _ = _ from setTransfer_other p hji _] at hj
      by_cases hki : k = i
      · subst hki
        rw [show _ = _ from setTransfer_self p k _] at hk
        cases hk
        exact absurd (hs.trans (congrArg some heq.symm)) (h.spare_apart j tj hj)
      · rw [show _ = _ from setTransfer_other p hki _] at hk
        exact h.apart j k tj tk hj hk heq
  · intro j tj hj heq
    have hbuf : tr.buffer = tj.buffer := Option.some.inj heq
    by_cases hji : j = i
    · subst hji
      rw [show _ = _ from setTransfer_self p j _] at hj
      cases hj
      exact h.spare_apart j tr htr (hs.trans (congrArg some hbuf.symm))
    · rw [show _ = _ from setTransfer_other p hji _] at hj
      exact hji (h.apart i j tr tj htr hj hbuf).symm

/-- The driver does not own the buffer of a transfer it has handed
back. -/
theorem Owned.not_driven {p : Priv} (h : Owned p) {i : Fin transferCount} {b : Nat}
    (htr : p.inTransfers i = some ⟨b, false⟩) : ¬ p.Driven b := by
  rintro ⟨j, hj⟩
  have heq : j = i := h.apart j i _ _ hj htr rfl
  rw [heq, htr] at hj
  cases hj

/-- Nor the spare. -/
theorem Owned.spare_not_driven {p : Priv} (h : Owned p) {b : Nat} (hs : p.spare = some b) :
    ¬ p.Driven b := by
  rintro ⟨j, hj⟩
  exact h.spare_apart j _ hj hs

/-! ## One callback -/

/-- The pool before teardown, with a feed callback. -/
structure Live (p : Priv) : Prop where
  owned : Owned p
  closing : p.closing = false
  feed : p.feed = true

theorem Live.congr {p q : Priv} (h : Live p) (ht : q.inTransfers = p.inTransfers)
    (hs : q.spare = p.spare) (hc : q.closing = p.closing) (hf : q.feed = p.feed) : Live q :=
  ⟨h.owned.congr ht hs, by rw [hc, h.closing], by rw [hf, h.feed]⟩

theorem Live.drive {p : Priv} (h : Live p) (w : Mem) : Live (p.drive w) :=
  h.congr (drive_inTransfers p w) (drive_spare p w) (drive_closing p w) (drive_feed p w)

/-- The transfer that completes is the host's again. -/
def handedBack (p : Priv) (e : Completion) (b : Nat) : Priv :=
  (p.drive e.before).setTransfer e.transfer (some ⟨b, false⟩)

theorem handedBack_self (p : Priv) (e : Completion) (b : Nat) :
    (handedBack p e b).inTransfers e.transfer = some ⟨b, false⟩ := setTransfer_self _ _ _

theorem Live.handedBack {p : Priv} (h : Live p) {e : Completion} {b : Nat}
    (hb : p.inTransfers e.transfer = some ⟨b, true⟩) : Live (handedBack p e b) := by
  have hd := h.drive e.before
  have hb' : (p.drive e.before).inTransfers e.transfer = some ⟨b, true⟩ := by
    rw [drive_inTransfers, hb]
  exact ⟨hd.owned.setSubmitted hb' false, hd.closing, hd.feed⟩

theorem receivedBytes_eq {p : Priv} {e : Completion} {b : Nat}
    (hb : p.inTransfers e.transfer = some ⟨b, true⟩) :
    receivedBytes p e = (handedBack p e b).bytes b e.actualLength := by
  simp only [receivedBytes, drive_inTransfers, hb]
  rfl

/-- A callback that delivers takes one of the two branches. -/
theorem inCallback_eq {p : Priv} (h : Live p) {e : Completion} (hd : e.delivers) {b : Nat}
    (hb : p.inTransfers e.transfer = some ⟨b, true⟩) :
    inCallback p e =
      match p.spare with
      | some spare =>
          if e.actualLength < transferSize then swapAndSubmit (handedBack p e b) e b spare
          else feedAndSubmit (handedBack p e b) e b
      | none => feedAndSubmit (handedBack p e b) e b := by
  have hclosing := (h.handedBack hb).closing
  rw [handedBack] at hclosing
  simp only [inCallback, drive_inTransfers, hb, hclosing, Bool.false_eq_true, if_false,
    if_neg hd.1, if_neg hd.2, setTransfer_spare, drive_spare]
  cases p.spare with
  | none => rfl
  | some spare => rfl

theorem callBytes_callFeed {p : Priv} (h : p.feed = true) (b len : Nat) :
    callBytes (callFeed p b len) = p.bytes b len := by
  by_cases hlen : len > 0
  · rw [callFeed, if_pos ⟨hlen, h⟩]
    rfl
  · have hzero : len = 0 := by omega
    rw [callFeed, if_neg (fun hc => hlen hc.1), hzero]
    rfl

/-- The branch that feeds first delivers, whether it can resubmit or
not. -/
theorem feedAndSubmit_spec {q : Priv} (h : Live q) (e : Completion) {b : Nat}
    (hb : q.inTransfers e.transfer = some ⟨b, false⟩) :
    Live (feedAndSubmit q e b).1 ∧ (feedAndSubmit q e b).1.spare = q.spare ∧
      callBytes (feedAndSubmit q e b).2 = q.bytes b e.actualLength := by
  have hd := h.drive e.during
  have hbytes : callBytes (callFeed (q.drive e.during) b e.actualLength) =
      q.bytes b e.actualLength := by
    rw [callBytes_callFeed hd.feed, bytes_drive (h.owned.not_driven hb)]
  by_cases hrc : e.rc < 0
  · simp only [feedAndSubmit, if_pos hrc]
    exact ⟨hd.congr rfl rfl rfl rfl, drive_spare q e.during, hbytes⟩
  · simp only [feedAndSubmit, if_neg hrc]
    have hb' : (q.drive e.during).inTransfers e.transfer = some ⟨b, false⟩ := by
      rw [drive_inTransfers, hb]
    exact ⟨⟨hd.owned.setSubmitted hb' true, hd.closing, hd.feed⟩, drive_spare q e.during, hbytes⟩

/-- The branch that swaps delivers when it can resubmit. -/
theorem swapAndSubmit_ok {q : Priv} (h : Live q) {e : Completion} {b spare : Nat}
    (hb : q.inTransfers e.transfer = some ⟨b, false⟩) (hs : q.spare = some spare)
    (hrc : ¬ e.rc < 0) :
    Live (swapAndSubmit q e b spare).1 ∧ (swapAndSubmit q e b spare).1.spare.isSome = true ∧
      callBytes (swapAndSubmit q e b spare).2 = q.bytes b e.actualLength := by
  have howned := h.owned.swap hb hs true
  have hswapped : Live { q.setTransfer e.transfer (some ⟨spare, true⟩) with spare := some b } :=
    ⟨howned, h.closing, h.feed⟩
  have hdriven := hswapped.drive e.during
  simp only [swapAndSubmit, if_neg hrc]
  refine ⟨hdriven.congr rfl ?_ rfl rfl, rfl, ?_⟩
  · exact (drive_spare { q.setTransfer e.transfer (some ⟨spare, true⟩) with spare := some b }
      e.during).symm
  · -- the driver has the other buffer now
    rw [callBytes_callFeed hdriven.feed, bytes_drive (howned.spare_not_driven rfl)]
    rfl

/-- Otherwise it drops what arrived, and the spare is gone. -/
theorem swapAndSubmit_failed {q : Priv} (h : Live q) {e : Completion} {b : Nat} (spare : Nat)
    (hb : q.inTransfers e.transfer = some ⟨b, false⟩) (hrc : e.rc < 0) :
    Live (swapAndSubmit q e b spare).1 ∧ (swapAndSubmit q e b spare).1.spare = none ∧
      callBytes (swapAndSubmit q e b spare).2 = [] := by
  have howned := h.owned.setSubmitted hb false
  simp only [swapAndSubmit, if_pos hrc]
  refine ⟨⟨⟨howned.apart, ?_⟩, h.closing, h.feed⟩, trivial, rfl⟩
  intro j tj _ heq
  cases heq

/-- A transfer that is shorter than its buffer and is not taken back. -/
def Completion.shortFailure (e : Completion) : Bool :=
  decide (e.rc < 0 ∧ e.actualLength < transferSize)

/-- **What one callback delivers.** With a spare a short transfer that
cannot be resubmitted is lost, and the spare with it; everything else is
delivered. -/
theorem inCallback_spec {p : Priv} (h : Live p) {e : Completion} (hd : e.delivers)
    (hc : Completes p e) :
    Live (inCallback p e).1 ∧
      if p.spare.isSome = true ∧ e.shortFailure = true then
        fedBytes p e = [] ∧ (inCallback p e).1.spare = none
      else
        fedBytes p e = receivedBytes p e ∧
          (inCallback p e).1.spare.isSome = p.spare.isSome := by
  obtain ⟨⟨b, hb⟩, -⟩ := hc
  have hback := h.handedBack hb
  have hself := handedBack_self p e b
  have hspare : (handedBack p e b).spare = p.spare := drive_spare p e.before
  have hplain := feedAndSubmit_spec hback e hself
  rw [fedBytes, receivedBytes_eq hb, inCallback_eq h hd hb]
  cases hs : p.spare with
  | none =>
      rw [hspare, hs] at hplain
      rw [if_neg (by simp)]
      exact ⟨hplain.1, hplain.2.2, by rw [hplain.2.1]⟩
  | some spare =>
      rw [hs] at hspare
      rw [hspare] at hplain
      by_cases hshort : e.actualLength < transferSize
      · by_cases hrc : e.rc < 0
        · have hlost := swapAndSubmit_failed hback spare hself hrc
          have hfail : e.shortFailure = true := decide_eq_true ⟨hrc, hshort⟩
          simp only [if_pos hshort]
          rw [if_pos ⟨rfl, hfail⟩]
          exact ⟨hlost.1, hlost.2.2, hlost.2.1⟩
        · have hok := swapAndSubmit_ok hback hself hspare hrc
          have hfine : ¬ e.shortFailure = true := fun hf => hrc (of_decide_eq_true hf).1
          simp only [if_pos hshort]
          rw [if_neg (fun hf => hfine hf.2)]
          exact ⟨hok.1, hok.2.2, hok.2.1⟩
      · have hfine : ¬ e.shortFailure = true := fun hf => hshort (of_decide_eq_true hf).2
        simp only [if_neg hshort]
        rw [if_neg (fun hf => hfine hf.2)]
        exact ⟨hplain.1, hplain.2.2, by rw [hplain.2.1]⟩

/-! ## Every sequence of callbacks -/

/-- Without a spare nothing is lost. -/
theorem fed_of_no_spare {p : Priv} (h : Live p) (hs : p.spare = none) {events : List Completion}
    (hd : ∀ e ∈ events, e.delivers) (hp : Possible p events) : fed p events = received p events := by
  induction events generalizing p with
  | nil => rfl
  | cons e events ih =>
      rw [List.forall_mem_cons] at hd
      obtain ⟨hc, hrest⟩ := hp
      obtain ⟨hlive, hturn⟩ := inCallback_spec h hd.1 hc
      rw [if_neg (by rw [hs]; simp)] at hturn
      obtain ⟨hbytes, hspare⟩ := hturn
      have hnone : (inCallback p e).1.spare = none := by
        rw [hs] at hspare
        exact Option.isSome_eq_false_iff.mp hspare |> Option.isNone_iff_eq_none.mp
      rw [fed, received, hbytes, ih hlive hnone hd.2 hrest]

theorem receivedBytes_length {p : Priv} {e : Completion} (hc : Completes p e) :
    (receivedBytes p e).length = e.actualLength := by
  obtain ⟨⟨b, hb⟩, -⟩ := hc
  rw [receivedBytes_eq hb, Priv.bytes, List.length_map, List.length_range]

/-- With a spare the first short transfer that is not taken back
decides. -/
theorem fed_eq_received_of_spare {p : Priv} (h : Live p) (hs : p.spare.isSome = true)
    {events : List Completion} (hd : ∀ e ∈ events, e.delivers) (hp : Possible p events) :
    fed p events = received p events ↔
      ∀ e, events.find? Completion.shortFailure = some e → e.actualLength = 0 := by
  induction events generalizing p with
  | nil => exact iff_of_true rfl (fun e he => by cases he)
  | cons e events ih =>
      rw [List.forall_mem_cons] at hd
      obtain ⟨hc, hrest⟩ := hp
      obtain ⟨hlive, hturn⟩ := inCallback_spec h hd.1 hc
      have hlen := receivedBytes_length hc
      rw [fed, received]
      by_cases hfail : e.shortFailure = true
      · rw [if_pos ⟨hs, hfail⟩] at hturn
        obtain ⟨hbytes, hnone⟩ := hturn
        rw [hbytes, List.nil_append, fed_of_no_spare hlive hnone hd.2 hrest,
          List.find?_cons_of_pos hfail]
        constructor
        · intro heq e' he'
          cases he'
          have hlens := congrArg List.length heq
          rw [List.length_append] at hlens
          omega
        · intro hzero
          have hnil : receivedBytes p e = [] :=
            List.eq_nil_of_length_eq_zero (by rw [hlen, hzero e rfl])
          rw [hnil, List.nil_append]
      · rw [if_neg (fun hf => hfail hf.2)] at hturn
        obtain ⟨hbytes, hspare⟩ := hturn
        rw [hbytes, List.append_cancel_left_eq, List.find?_cons_of_neg hfail]
        exact ih hlive (by rw [hspare, hs]) hd.2 hrest

/-- The armed transfers have the buffers they were given. -/
theorem armed_buffer {buffer : Fin transferCount → Nat} {arming : Fin transferCount → Arming}
    {i : Fin transferCount} {tr : Transfer} (h : armed buffer arming i = some tr) :
    tr.buffer = buffer i := by
  rw [armed] at h
  split at h
  · cases h
    rfl
  · cases h

theorem isSome_of_armed {buffer : Fin transferCount → Nat} {arming : Fin transferCount → Arming}
    {i : Fin transferCount} {tr : Transfer} (h : armed buffer arming i = some tr) :
    (armed buffer arming i).isSome = true := by
  rw [h]
  rfl

/-- Arming with different buffers, into a pool with or without a
spare. -/
theorem owned_tlSubmitInPool {p₀ p : Priv} {buffer : Fin transferCount → Nat} {spare : Nat}
    {arming : Fin transferCount → Arming} (hdown : p₀.streamsUp = false)
    (hbuffer : BuffersApart buffer arming) (hspare : SpareApart buffer (p₀.spare.getD spare) arming)
    (hp : tlSubmitInPool p₀ buffer spare arming = some p) : Owned p := by
  rw [tlSubmitInPool, if_neg (by rw [hdown]; exact Bool.false_ne_true)] at hp
  split at hp
  · cases hp
    constructor
    · intro i j ti tj hi hj heq
      rw [armed_buffer hi, armed_buffer hj] at heq
      exact hbuffer i j (isSome_of_armed hi) (isSome_of_armed hj) heq
    · intro i ti hi heq
      apply hspare i (isSome_of_armed hi)
      exact (armed_buffer hi).symm.trans (Option.some.inj heq).symm
  · cases hp

/-- Armed by `tl_open`, it is live and has a spare. -/
theorem live_tlSubmitInPool {mem : Mem} {buffer : Fin transferCount → Nat} {spare : Nat}
    {arming : Fin transferCount → Arming} {p : Priv} (hbuffer : BuffersApart buffer arming)
    (hspare : SpareApart buffer spare arming)
    (hp : tlSubmitInPool (opened mem) buffer spare arming = some p) :
    Live p ∧ p.spare.isSome = true := by
  have howned := owned_tlSubmitInPool (show (opened mem).streamsUp = false from rfl) hbuffer hspare hp
  rw [tlSubmitInPool, if_neg (show ¬ (opened mem).streamsUp = true from Bool.false_ne_true)] at hp
  split at hp
  · cases hp
    exact ⟨⟨howned, rfl, rfl⟩, rfl⟩
  · cases hp

/-- **When every received byte is fed.** Over every sequence of
completions of a pool the fed bytes are the received ones, in order,
exactly when the first transfer that is short and cannot be resubmitted,
if there is one, was empty. -/
theorem fed_eq_received_iff (mem : Mem) (buffer : Fin transferCount → Nat) (spare : Nat)
    (arming : Fin transferCount → Arming) (p : Priv) (events : List Completion)
    (hbuffer : BuffersApart buffer arming) (hspare : SpareApart buffer spare arming)
    (hp : tlSubmitInPool (opened mem) buffer spare arming = some p)
    (hd : ∀ e ∈ events, e.delivers) (hpossible : Possible p events) :
    fed p events = received p events ↔
      ∀ e, events.find? Completion.shortFailure = some e → e.actualLength = 0 := by
  obtain ⟨hlive, hsome⟩ := live_tlSubmitInPool hbuffer hspare hp
  exact fed_eq_received_of_spare hlive hsome hd hpossible

/-- Sixteen armed transfers. -/
def armedPool : Priv :=
  { opened (fun _ _ => 0) with
    inTransfers := armed (fun i => i.val) (fun _ => ⟨true, 0⟩)
    spare := some 16
    streamsUp := true }

theorem armedPool_eq :
    tlSubmitInPool (opened (fun _ _ => 0)) (fun i => i.val) 16 (fun _ => ⟨true, 0⟩) =
      some armedPool := by
  rw [tlSubmitInPool, if_neg (show ¬ (opened _).streamsUp = true from Bool.false_ne_true),
    if_pos ⟨⟨0, by decide⟩, rfl⟩]
  rfl

/-- Two bytes arrive, then an empty transfer that is not taken back. -/
def emptyFailure : List Completion :=
  [⟨⟨3, by decide⟩, .completed, 2, 0, fun _ _ => 0xA5, fun _ _ => 0⟩,
    ⟨⟨4, by decide⟩, .timedOut, 0, -1, fun _ _ => 0, fun _ _ => 0⟩]

theorem fed_eq_received_iff_emptyFailure :
    fed armedPool emptyFailure = received armedPool emptyFailure := by
  have hapart : BuffersApart (fun i => i.val) (fun _ => ⟨true, 0⟩) := fun _ _ _ _ => Fin.ext
  have hspare : SpareApart (fun i => i.val) 16 (fun _ => ⟨true, 0⟩) :=
    fun i _ => Nat.ne_of_lt i.isLt
  have hd : ∀ e ∈ emptyFailure, e.delivers := by
    intro e he
    simp only [emptyFailure, List.mem_cons, List.not_mem_nil, or_false] at he
    obtain rfl | rfl := he
    · exact ⟨Status.noConfusion, Status.noConfusion⟩
    · exact ⟨Status.noConfusion, Status.noConfusion⟩
  have hpossible : Possible armedPool emptyFailure := by
    refine ⟨⟨⟨3, by decide +kernel⟩, by decide⟩, ⟨⟨4, by decide +kernel⟩, by decide⟩, trivial⟩
  have hfirst : ∀ e, emptyFailure.find? Completion.shortFailure = some e → e.actualLength = 0 := by
    intro e he
    have hfind : emptyFailure.find? Completion.shortFailure =
        some ⟨⟨4, by decide⟩, .timedOut, 0, -1, fun _ _ => 0, fun _ _ => 0⟩ := by
      rw [emptyFailure, List.find?_cons_of_neg (by decide), List.find?_cons_of_pos (by decide)]
    rw [hfind] at he
    cases he
    rfl
  exact (fed_eq_received_iff _ _ _ _ armedPool emptyFailure hapart hspare armedPool_eq hd
    hpossible).mpr hfirst

/-- Two bytes that are not taken back. -/
def lostTransfer : Completion := ⟨⟨3, by decide⟩, .completed, 2, -1, fun _ _ => 0xA5, fun _ _ => 0⟩

/-- They are received and not fed. -/
theorem lostTransfer_not_fed :
    Completes armedPool lostTransfer ∧ lostTransfer.delivers ∧
      received armedPool [lostTransfer] = [0xA5, 0xA5] ∧ fed armedPool [lostTransfer] = [] := by
  refine ⟨⟨⟨3, by decide +kernel⟩, by decide⟩, ⟨Status.noConfusion, Status.noConfusion⟩, ?_, ?_⟩
  · decide +kernel
  · decide +kernel

end UsbSniffer.Transport
