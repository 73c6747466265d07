import UsbSniffer.LiveSession
import UsbSniffer.Transport.Ownership

/-!
# The transport over a whole session

`tl_events` and `tl_discard` of `transport_libusb.c`, with the pool of
`in_callback` below them and the calls of `run_capture_gen2` above. In
the command phase `tl_events` reads synchronously and feeds what it read,
the bytes of a read that timed out too. What is discarded or measured is
not fed. From `tl_stream_mode` on the callbacks of the pool feed.

`usb_file` is the whole way, from what libusb returns to the file: as
long as the one transfer that can be lost is not, the file depends on
nothing but the bytes that were received in each phase. A transfer that
is cancelled, or that comes back with the device gone, counts for
nothing, whatever is in its buffer.
-/

namespace UsbSniffer.Transport

open Lib

/-! ## The command phase -/

/-- `LIBUSB_ERROR_NO_DEVICE`, `LIBUSB_ERROR_TIMEOUT` and
`LIBUSB_ERROR_INTERRUPTED`. -/
def errorNoDevice : Int := -4
def errorTimeout : Int := -7
def errorInterrupted : Int := -10

/-- The result of `libusb_bulk_transfer`, and the bytes it has put into
the buffer. -/
structure BulkRead where
  rc : Int
  data : List UInt8

/-- `if (size > 0 && t->cb.feed) t->cb.feed(…)` -/
def feedRead (p : Priv) (data : List UInt8) : List (List UInt8) :=
  if data ≠ [] ∧ p.feed = true then [data] else []

/-- `tl_events` before `tl_stream_mode`. -/
def tlEventsRead (p : Priv) (r : BulkRead) : Priv × List (List UInt8) × Bool :=
  if p.alive = false then (p, [], false)
  else if r.rc = errorTimeout then (p, feedRead p r.data, true)
  else if r.rc = errorNoDevice then ({ p with alive := false }, [], false)
  else if r.rc < 0 then ({ p with alive := false }, [], false)
  else (p, feedRead p r.data, true)

/-- The loop of `tl_discard`, and whether the endpoint was found
empty. -/
def discardLoop : Nat → Priv → List BulkRead → Priv × Bool
  | 0, p, _ => (p, false)
  | _ + 1, p, [] => (p, false)
  | left + 1, p, r :: reads =>
      if r.rc = errorTimeout then (p, true)
      else if r.rc = errorNoDevice then ({ p with alive := false }, false)
      -- an error is logged, a read is counted; both are dropped
      else discardLoop left p reads

/-- `tl_discard`. -/
def tlDiscard (p : Priv) (reads : List BulkRead) : Priv × Bool := discardLoop 50 p reads

/-- What is called in the command phase. -/
inductive CommandOp where
  | events (r : BulkRead)
  | discard (reads : List BulkRead)
  | probe
  | reset (back : Bool)

/-- One call, and what it feeds. `tl_probe_upstream` has a pool of its own
and counts only; `tl_reset_device` opens the device anew, or does not get
it back. -/
def commandOp (p : Priv) : CommandOp → Priv × List (List UInt8)
  | .events r => ((tlEventsRead p r).1, (tlEventsRead p r).2.1)
  | .discard reads => ((tlDiscard p reads).1, [])
  | .probe => (p, [])
  | .reset back => ({ p with alive := back, closing := false }, [])

def commandPhase (p : Priv) : List CommandOp → Priv × List (List UInt8)
  | [] => (p, [])
  | op :: ops =>
      let (p, fed) := commandOp p op
      let (p, more) := commandPhase p ops
      (p, fed ++ more)

/-! ## The pool -/

/-- One `libusb_handle_events_timeout`: the callbacks that ran in it, and
its result. -/
structure Handled where
  callbacks : List Completion
  rc : Int

/-- `tl_events` behind `tl_stream_mode`: the callbacks that ran, and what
it returns. -/
def tlEventsPool (p : Priv) : List Handled → Option (List Completion × Priv × Bool)
  | [] => none
  | h :: more =>
      if p.alive = false then some ([], p, false)
      else
        let q := after p h.callbacks
        if h.rc = errorInterrupted then
          (tlEventsPool q more).map fun r => (h.callbacks ++ r.1, r.2)
        else if h.rc < 0 ∧ h.rc ≠ errorTimeout then
          some (h.callbacks, { q with alive := false }, false)
        else some (h.callbacks, q, true)

/-- Calls of `tl_events` until one of them returns `false`. A dead
transport does nothing, so it does not matter whether the caller goes
on. -/
def pump (p : Priv) : List (List Handled) → Option (List Completion × Priv)
  | [] => some ([], p)
  | hs :: more => do
      let (ran, q, alive) ← tlEventsPool p hs
      if alive then
        let (ran', q') ← pump q more
        pure (ran ++ ran', q')
      else pure (ran, q)

/-- What libusb does in a session: the command phase, the arming of the
pool, the calls of the main loop, and those of the last command. -/
structure Trace where
  startup : List CommandOp
  buffer : Fin transferCount → Nat
  spare : Nat
  arming : Fin transferCount → Arming
  streamed : List (List Handled)
  closing : List (List Handled)

/-- What was fed before the pool was armed, the pool then and when the
main loop has ended, and the callbacks that ran in it and behind it. -/
structure Ran where
  startup : List (List UInt8)
  pool : Priv
  streamed : List Completion
  settled : Priv
  closing : List Completion

/-- The transport in `run_capture_gen2`. -/
def Trace.run (t : Trace) (mem : Mem) : Option Ran := do
  let (p, fed) := commandPhase (opened mem) t.startup
  let pool ← tlSubmitInPool p t.buffer t.spare t.arming
  let (streamed, q) ← pump pool t.streamed
  -- `if (transport_alive(tr))`
  if q.alive then
    let (closing, _) ← pump q t.closing
    pure ⟨fed, pool, streamed, q, closing⟩
  else pure ⟨fed, pool, streamed, q, []⟩

/-- The chunks that are fed in the three phases. -/
def Ran.uplink (r : Ran) : Gen2.Uplink where
  startup := r.startup
  streamed := (feedCalls r.pool r.streamed).map FeedCall.bytes
  closing := (feedCalls r.settled r.closing).map FeedCall.bytes

instance (e : Completion) : Decidable e.delivers :=
  inferInstanceAs (Decidable (_ ∧ _))

/-- The bytes received in the transfers that are neither cancelled nor
come back with the device gone, in their order. -/
def delivered (p : Priv) : List Completion → List UInt8
  | [] => []
  | e :: events =>
      (if e.delivers then receivedBytes p e else []) ++ delivered (inCallback p e).1 events

/-- These bytes, each phase in one piece. -/
def Ran.delivered (r : Ran) : Gen2.Uplink where
  startup := [r.startup.flatten]
  streamed := [Transport.delivered r.pool r.streamed]
  closing := [Transport.delivered r.settled r.closing]

/-! ## What the command phase leaves -/

theorem discardLoop_pool (left : Nat) (p : Priv) (reads : List BulkRead) :
    ∃ alive, (discardLoop left p reads).1 = { p with alive := alive } := by
  induction left generalizing p reads with
  | zero => exact ⟨p.alive, rfl⟩
  | succ left ih =>
      cases reads with
      | nil => exact ⟨p.alive, rfl⟩
      | cons r reads =>
          rw [discardLoop]
          split
          · exact ⟨p.alive, rfl⟩
          · split
            · exact ⟨false, rfl⟩
            · exact ih p reads

/-- The pool is left alone. -/
theorem commandPhase_pool (ops : List CommandOp) {p : Priv} (h : p.closing = false) :
    ∃ alive, (commandPhase p ops).1 = { p with alive := alive } := by
  induction ops generalizing p with
  | nil => exact ⟨p.alive, rfl⟩
  | cons op ops ih =>
      have hop : ∃ alive, (commandOp p op).1 = { p with alive := alive } := by
        cases op with
        | events r =>
            simp only [commandOp, tlEventsRead]
            split
            · exact ⟨p.alive, rfl⟩
            · split
              · exact ⟨p.alive, rfl⟩
              · split
                · exact ⟨false, rfl⟩
                · split
                  · exact ⟨false, rfl⟩
                  · exact ⟨p.alive, rfl⟩
        | discard reads => exact discardLoop_pool 50 p reads
        | probe => exact ⟨p.alive, rfl⟩
        | reset back =>
            refine ⟨back, ?_⟩
            simp only [commandOp, ← h]
      obtain ⟨alive, hop⟩ := hop
      obtain ⟨alive', hrest⟩ := ih (p := (commandOp p op).1) (by rw [hop]; exact h)
      refine ⟨alive', ?_⟩
      have hcons : (commandPhase p (op :: ops)).1 = (commandPhase (commandOp p op).1 ops).1 := rfl
      rw [hcons, hrest, hop]

/-- Armed behind the command phase, the pool is live and has a spare. -/
theorem live_armed {mem : Mem} {ops : List CommandOp} {buffer : Fin transferCount → Nat}
    {spare : Nat} {arming : Fin transferCount → Arming} {p : Priv}
    (hbuffer : BuffersApart buffer arming) (hspare : SpareApart buffer spare arming)
    (hp : tlSubmitInPool (commandPhase (opened mem) ops).1 buffer spare arming = some p) :
    Live p ∧ p.spare.isSome = true := by
  obtain ⟨alive, hphase⟩ := commandPhase_pool ops (p := opened mem) rfl
  rw [hphase] at hp
  have hdown : ¬ ({ opened mem with alive := alive } : Priv).streamsUp = true := Bool.false_ne_true
  have howned := owned_tlSubmitInPool (Bool.eq_false_iff.mpr hdown) hbuffer hspare hp
  rw [tlSubmitInPool, if_neg hdown] at hp
  split at hp
  · cases hp
    exact ⟨⟨howned, rfl, rfl⟩, rfl⟩
  · cases hp

/-! ## What the callbacks feed -/

theorem after_append (p : Priv) (xs ys : List Completion) :
    after p (xs ++ ys) = after (after p xs) ys := by
  induction xs generalizing p with
  | nil => rfl
  | cons e xs ih => exact ih (inCallback p e).1

theorem flatten_feedCalls (p : Priv) (events : List Completion) :
    ((feedCalls p events).map FeedCall.bytes).flatten = fed p events := by
  induction events generalizing p with
  | nil => rfl
  | cons e events ih =>
      have hone : ((inCallback p e).2.toList.map FeedCall.bytes).flatten = fedBytes p e := by
        rw [fedBytes]
        cases (inCallback p e).2 <;> simp [callBytes]
      rw [feedCalls, List.map_append, List.flatten_append, hone, ih, fed]

/-- A callback for a cancelled transfer or a lost device. -/
theorem inCallback_silent {p : Priv} (h : Live p) {e : Completion} (hd : ¬ e.delivers)
    (hc : Completes p e) :
    Live (inCallback p e).1 ∧ fedBytes p e = [] ∧ (inCallback p e).1.spare = p.spare := by
  obtain ⟨⟨b, hb⟩, -⟩ := hc
  have hback := h.handedBack hb
  have hspare : (handedBack p e b).spare = p.spare := drive_spare p e.before
  have heq : ∃ alive, inCallback p e = ({ handedBack p e b with alive := alive }, none) := by
    have hclosing := hback.closing
    rw [handedBack] at hclosing
    simp only [inCallback, drive_inTransfers, hb, hclosing, Bool.false_eq_true, if_false]
    by_cases hdevice : e.status = .noDevice
    · rw [if_pos hdevice]
      exact ⟨false, by simp [handedBack, h.closing]⟩
    · have hcancelled : e.status = .cancelled := by
        by_contra hne
        exact hd ⟨hne, hdevice⟩
      rw [if_neg hdevice, if_pos hcancelled]
      exact ⟨(p.drive e.before).alive, rfl⟩
  obtain ⟨alive, heq⟩ := heq
  rw [fedBytes, heq]
  exact ⟨hback.congr rfl rfl rfl rfl, rfl, hspare⟩

/-- The callback loses its transfer, if there is a spare. -/
def Completion.loses (e : Completion) : Bool := e.shortFailure && decide e.delivers

/-- One callback. -/
theorem inCallback_feeds {p : Priv} (h : Live p) {e : Completion} (hc : Completes p e) :
    Live (inCallback p e).1 ∧
      (inCallback p e).1.spare.isSome = (p.spare.isSome && !e.loses) ∧
      (((p.spare.isSome && e.loses) = true → e.actualLength = 0) →
        fedBytes p e = if e.delivers then receivedBytes p e else []) := by
  have hempty : e.actualLength = 0 → receivedBytes p e = [] := fun hzero =>
    List.eq_nil_of_length_eq_zero (by rw [receivedBytes_length hc, hzero])
  by_cases hd : e.delivers
  · obtain ⟨hlive, hturn⟩ := inCallback_spec h hd hc
    have hloses : e.loses = e.shortFailure := by simp [Completion.loses, hd]
    rw [hloses, if_pos hd]
    split at hturn
    · rename_i hlost
      obtain ⟨hbytes, hnone⟩ := hturn
      refine ⟨hlive, by simp [hnone, hlost.2], fun hzero => ?_⟩
      rw [hbytes, hempty (hzero (by simp [hlost]))]
    · rename_i hkept
      obtain ⟨hbytes, hspare⟩ := hturn
      refine ⟨hlive, ?_, fun _ => hbytes⟩
      rw [hspare]
      cases hs : p.spare.isSome <;> simp_all
  · obtain ⟨hlive, hbytes, hspare⟩ := inCallback_silent h hd hc
    have hloses : e.loses = false := by simp [Completion.loses, hd]
    refine ⟨hlive, by simp [hspare, hloses], fun _ => ?_⟩
    rw [hbytes, if_neg hd]

/-- The first transfer that would be lost carries nothing. -/
def Spared (p : Priv) (events : List Completion) : Prop :=
  p.spare.isSome = true → ∀ e, events.find? Completion.loses = some e → e.actualLength = 0

/-- **Every callback that ran.** If the first transfer that would be lost
carries nothing, all that was delivered was fed. -/
theorem fed_eq_delivered {p : Priv} (h : Live p) {events : List Completion} (hp : Possible p events)
    (hspared : Spared p events) : fed p events = delivered p events := by
  induction events generalizing p with
  | nil => rfl
  | cons e events ih =>
      obtain ⟨hc, hrest⟩ := hp
      obtain ⟨hlive, hspare, hbytes⟩ := inCallback_feeds h hc
      rw [fed, delivered, hbytes ?_, ih hlive hrest ?_]
      · intro hsome
        rw [hspare] at hsome
        simp only [Bool.and_eq_true, Bool.not_eq_true'] at hsome
        have hfind := hspared hsome.1
        rwa [List.find?_cons_of_neg (by simp [hsome.2])] at hfind
      · intro hlost
        simp only [Bool.and_eq_true] at hlost
        exact hspared hlost.1 e (List.find?_cons_of_pos hlost.2)

/-- The two halves of a run. -/
theorem split_run {p : Priv} (h : Live p) {first second : List Completion}
    (hp : Possible p (first ++ second)) (hspared : Spared p (first ++ second)) :
    (Possible p first ∧ Spared p first) ∧ Live (after p first) ∧
      Possible (after p first) second ∧ Spared (after p first) second := by
  induction first generalizing p with
  | nil => exact ⟨⟨trivial, fun _ e he => by cases he⟩, h, hp, hspared⟩
  | cons e first ih =>
      rw [List.cons_append] at hp hspared
      obtain ⟨hc, hrest⟩ := hp
      obtain ⟨hlive, hspare, -⟩ := inCallback_feeds h hc
      have hspared' : Spared (inCallback p e).1 (first ++ second) := by
        intro hsome
        rw [hspare] at hsome
        simp only [Bool.and_eq_true, Bool.not_eq_true'] at hsome
        have hfind := hspared hsome.1
        rwa [List.find?_cons_of_neg (by simp [hsome.2])] at hfind
      obtain ⟨⟨hpfirst, -⟩, hafter⟩ := ih hlive hrest hspared'
      refine ⟨⟨⟨hc, hpfirst⟩, fun hsome e' he' => hspared hsome e' ?_⟩, hafter⟩
      rw [← List.cons_append, List.find?_append, he']
      rfl

/-! ## The phases of the pool -/

/-- `tl_events` runs its callbacks and does nothing else, or leaves the
transport dead. -/
theorem tlEventsPool_spec {p : Priv} {hs : List Handled} {ran : List Completion} {q : Priv}
    {more : Bool} (h : tlEventsPool p hs = some (ran, q, more)) :
    if more then q = after p ran else q.alive = false := by
  induction hs generalizing p ran with
  | nil => cases h
  | cons turn hs ih =>
      rw [tlEventsPool] at h
      split at h
      · rename_i hdead
        cases h
        exact hdead
      · split at h
        · obtain ⟨⟨ran', r⟩, hr, heq⟩ := Option.map_eq_some_iff.mp h
          cases heq
          have hrest := ih hr
          rw [after_append]
          exact hrest
        · split at h
          · cases h
            rfl
          · cases h
            rfl

theorem pump_spec {p : Priv} {calls : List (List Handled)} {ran : List Completion} {q : Priv}
    (h : pump p calls = some (ran, q)) : q.alive = true → q = after p ran := by
  induction calls generalizing p ran with
  | nil =>
      cases h
      exact fun _ => rfl
  | cons hs calls ih =>
      rw [pump] at h
      simp only [Option.bind_eq_bind, Option.bind_eq_some_iff] at h
      obtain ⟨⟨ran₁, r, more⟩, hevents, hrest⟩ := h
      have hone := tlEventsPool_spec hevents
      intro halive
      cases more with
      | false =>
          cases hrest
          exact absurd halive (by simpa using hone)
      | true =>
          simp only [if_true, Option.bind_eq_some_iff] at hrest hone
          obtain ⟨⟨ran₂, r₂⟩, hpump, heq⟩ := hrest
          cases heq
          rw [after_append, ← hone]
          exact ih hpump halive

/-- The phases of a trace: the pool that was armed, and the state in which
the last callbacks run. -/
theorem Trace.run_spec {t : Trace} {mem : Mem} {r : Ran} (h : t.run mem = some r) :
    tlSubmitInPool (commandPhase (opened mem) t.startup).1 t.buffer t.spare t.arming =
        some r.pool ∧
      (r.closing = [] ∨ r.settled = after r.pool r.streamed) := by
  simp only [Trace.run, Option.bind_eq_bind, Option.bind_eq_some_iff] at h
  obtain ⟨pool, hpool, ⟨streamed, q⟩, hpump, hrest⟩ := h
  split at hrest
  · rename_i halive
    simp only [Option.bind_eq_some_iff] at hrest
    obtain ⟨⟨closing, q'⟩, -, heq⟩ := hrest
    cases heq
    exact ⟨hpool, Or.inr (pump_spec hpump halive)⟩
  · cases hrest
    exact ⟨hpool, Or.inl rfl⟩

/-- **A session over USB, from what libusb returns to the file.** Take
any trace of the transport that arms its pool: any reads and discards
before, a reset among them or not, any callbacks libusb can make in the
main loop and behind it, errors, interruptions and the loss of the device
included. As long as the first transfer that is short and cannot be
submitted again carries nothing, the file is the one of a session that is
fed the bytes of each phase in one piece, those of cancelled transfers
and of transfers that find the device gone left out, whatever the
transfers, the turns of the threads and the short writes; and a reader
takes it back. -/
theorem usb_file (opts : PacketOpts) (link : List (List UInt8)) (build why : String)
    (hlink : ∀ line ∈ link, line.length ≤ 191) (mem : Mem) (t : Trace) (r : Ran)
    (hrun : t.run mem = some r) (hbuffer : BuffersApart t.buffer t.arming)
    (hspare : SpareApart t.buffer t.spare t.arming)
    (hpossible : Possible r.pool (r.streamed ++ r.closing))
    (hspared : Spared r.pool (r.streamed ++ r.closing)) :
    ∃ pre post g, Gen2.atEnd opts build why r.delivered = some g ∧
      Gen2.liveWrites opts link build why r.delivered = some (pre, post) ∧
      (pre ++ post).filterMap Gen2.packetOf = g.packet.out.filterMap Record.packet ∧
      ∀ q, Relation.ReflTransGen Rawq.OrderlyStep (Rawq.init r.uplink.streamed) q →
        q.returned = true →
        Gen2.liveWrites opts link build why ⟨r.uplink.startup, q.fed, r.uplink.closing⟩ =
          some (pre, post) ∧
        ∀ s, Relation.ReflTransGen Pcapng.WritingStep
            (Pcapng.pcapngOpen (Pcapng.session pre (dltForSpeed opts.captureSpeed) post)) s →
          s.closed = true →
          s.file = Pcapng.headers (dltForSpeed opts.captureSpeed) ++ Pcapng.blocks pre ++
              Pcapng.blocks post ∧
            Pcapng.readFile s.file = some (Pcapng.headerBlocks (dltForSpeed opts.captureSpeed) ++
              (pre ++ post).flatMap Pcapng.Write.packets) := by
  obtain ⟨hpool, hsettled⟩ := Trace.run_spec hrun
  obtain ⟨hlive, -⟩ := live_armed hbuffer hspare hpool
  obtain ⟨⟨hpfirst, hsfirst⟩, hlive', hpsecond, hssecond⟩ :=
    split_run hlive hpossible hspared
  have hstreamed : fed r.pool r.streamed = delivered r.pool r.streamed :=
    fed_eq_delivered hlive hpfirst hsfirst
  have hclosing : fed r.settled r.closing = delivered r.settled r.closing := by
    rcases hsettled with hnil | hsettled
    · rw [hnil]
      rfl
    · rw [hsettled]
      exact fed_eq_delivered hlive' hpsecond hssecond
  refine Gen2.file_of_bytes opts link build why hlink ?_ ?_ ?_
  · exact (List.append_nil _).symm
  · rw [Ran.uplink, flatten_feedCalls, hstreamed]
    exact (List.append_nil _).symm
  · rw [Ran.uplink, flatten_feedCalls, hclosing]
    exact (List.append_nil _).symm

theorem slot0_lt : 0 < transferCount := by decide

theorem slot3_lt : 3 < transferCount := by decide

/-- Two of the transfers. -/
def slot0 : Fin transferCount := ⟨0, slot0_lt⟩

def slot3 : Fin transferCount := ⟨3, slot3_lt⟩

/-- A transfer that brings these bytes. -/
def bringing (transfer : Fin transferCount) (data : List UInt8) : Completion :=
  { transfer := transfer, status := .completed, actualLength := data.length, rc := 0,
    before := fun _ k => data.getD k 0, during := fun _ _ => 0 }

/-- The device is gone, and there are two bytes in the buffer. -/
def goneTransfer : Completion :=
  { transfer := ⟨1, by decide⟩, status := .noDevice, actualLength := 2, rc := 0,
    before := fun _ _ => 7, during := fun _ _ => 0 }

/-- A session in which the second submission fails and its buffer is
allocated again, the third transfer comes with an interruption, and the
device is lost at the end. -/
def interruptedTrace : Trace where
  startup := [.events ⟨0, (Stream.ackBlock 0).encode.take 5⟩, .discard [⟨errorTimeout, []⟩],
    .events ⟨errorTimeout, (Stream.ackBlock 0).encode.drop 5⟩]
  buffer i := if i.val = 2 then 3 else i.val
  spare := 16
  arming i := ⟨true, if i.val = 2 then -1 else 0⟩
  streamed :=
    [[⟨[bringing slot0 (Gen2.framesBytes.take 5)], 0⟩],
      [⟨[bringing slot3 ((Gen2.framesBytes.drop 5).take 25)], errorInterrupted⟩,
        ⟨[bringing slot0 (Gen2.framesBytes.drop 30)], 0⟩],
      [⟨[goneTransfer], 0⟩]]
  closing := []

def interruptedCallbacks : List Completion :=
  [bringing slot0 (Gen2.framesBytes.take 5), bringing slot3 ((Gen2.framesBytes.drop 5).take 25),
    bringing slot0 (Gen2.framesBytes.drop 30), goneTransfer]

/-- Fifteen armed transfers. -/
def interruptedPool : Priv :=
  { opened (fun _ _ => 0) with
    inTransfers := armed interruptedTrace.buffer interruptedTrace.arming
    spare := some 16
    streamsUp := true }

def interruptedRan : Ran where
  startup := Gen2.cutStartup
  pool := interruptedPool
  streamed := interruptedCallbacks
  settled := after interruptedPool interruptedCallbacks
  closing := []

theorem interruptedTrace_startup : commandPhase (opened fun _ _ => 0) interruptedTrace.startup =
    (opened fun _ _ => 0, Gen2.cutStartup) := by
  have hread : ∀ (rc : Int) (data : List UInt8), rc = 0 ∨ rc = errorTimeout → data ≠ [] →
      tlEventsRead (opened fun _ _ => 0) ⟨rc, data⟩ = (opened fun _ _ => 0, [data], true) := by
    intro rc data hrc hne
    rcases hrc with rfl | rfl
    · simp [tlEventsRead, feedRead, opened, hne, errorTimeout, errorNoDevice]
    · simp [tlEventsRead, feedRead, opened, hne]
  simp only [interruptedTrace, commandPhase, commandOp, tlDiscard, discardLoop, if_true,
    hread 0 _ (.inl rfl) (show (Stream.ackBlock 0).encode.take 5 ≠ [] by decide +kernel),
    hread errorTimeout _ (.inr rfl) (show (Stream.ackBlock 0).encode.drop 5 ≠ [] by decide +kernel)]
  rfl

theorem interruptedTrace_run : interruptedTrace.run (fun _ _ => 0) = some interruptedRan := by
  have hpool : tlSubmitInPool (opened fun _ _ => 0) interruptedTrace.buffer interruptedTrace.spare
      interruptedTrace.arming = some interruptedPool := by
    rw [tlSubmitInPool, if_neg (show ¬ (opened _).streamsUp = true from Bool.false_ne_true),
      if_pos ⟨⟨0, by decide⟩, rfl⟩]
    rfl
  have halive : ∀ n < 4, (after interruptedPool (interruptedCallbacks.take n)).alive = true := by
    decide +kernel
  have hdead : (after interruptedPool interruptedCallbacks).alive = false := by decide +kernel
  have hpump : pump interruptedPool interruptedTrace.streamed =
      some (interruptedCallbacks, after interruptedPool interruptedCallbacks) := by
    have h0 : interruptedPool.alive = true := halive 0 (by decide)
    have h1 := halive 1 (by decide)
    have h2 := halive 2 (by decide)
    have h3 := halive 3 (by decide)
    simp only [interruptedCallbacks, List.take_succ_cons, List.take_zero, after] at h1 h2 h3 hdead
    simp [interruptedTrace, interruptedCallbacks, pump, tlEventsPool, after, h0, h1, h2, h3,
      errorInterrupted, errorTimeout]
  simp only [Trace.run, interruptedTrace_startup, hpool, hpump, Option.bind_eq_bind,
    Option.bind_some, hdead]
  rfl

/-- The addresses of `interruptedTrace`: the freed one comes twice. -/
theorem interruptedTrace_apart :
    BuffersApart interruptedTrace.buffer interruptedTrace.arming ∧
      SpareApart interruptedTrace.buffer interruptedTrace.spare interruptedTrace.arming := by
  have hfailed : ∀ i : Fin transferCount, (armed interruptedTrace.buffer interruptedTrace.arming
      i).isSome = true → interruptedTrace.buffer i = i.val := by
    intro i hi
    by_cases h2 : i.val = 2
    · simp [armed, interruptedTrace, h2] at hi
    · exact if_neg h2
  constructor
  · intro i j hi hj heq
    rw [hfailed i hi, hfailed j hj] at heq
    exact Fin.ext heq
  · intro i hi heq
    rw [hfailed i hi] at heq
    exact absurd heq (Nat.ne_of_lt i.isLt)

theorem usb_file_interrupted : ∃ q s,
    Rawq.exec (Rawq.init interruptedRan.uplink.streamed) Gen2.pushSchedule = some q ∧
      Pcapng.exec (Pcapng.pcapngOpen (Pcapng.session [] 288 Gen2.packetWrites)) Gen2.shortWrites =
        some s ∧
      Pcapng.readFile s.file =
        some (Pcapng.headerBlocks 288 ++ Gen2.packetWrites.flatMap Pcapng.Write.packets) := by
  have hstreamed : interruptedRan.uplink.streamed = Gen2.cutPushes := by decide +kernel
  have hdelivered : interruptedRan.delivered =
      Gen2.Uplink.whole ⟨Gen2.cutStartup, Gen2.cutPushes, []⟩ := by
    have hbytes : delivered interruptedPool interruptedCallbacks = Gen2.cutPushes.flatten := by
      decide +kernel
    show Gen2.Uplink.mk [Gen2.cutStartup.flatten] [delivered interruptedPool interruptedCallbacks]
      [[]] = _
    rw [hbytes]
    rfl
  have hpossible : Possible interruptedPool interruptedCallbacks :=
    ⟨⟨⟨0, by decide +kernel⟩, by decide +kernel⟩, ⟨⟨3, by decide +kernel⟩, by decide +kernel⟩,
      ⟨⟨16, by decide +kernel⟩, by decide +kernel⟩, ⟨⟨1, by decide +kernel⟩, by decide +kernel⟩,
      trivial⟩
  have hspared : Spared interruptedPool interruptedCallbacks := by
    intro _ e he
    have hnone : (interruptedCallbacks.find? Completion.loses).isNone = true := by decide +kernel
    rw [Option.isNone_iff_eq_none.mp hnone] at he
    cases he
  obtain ⟨pre, post, g, -, hwhole, -, hfile⟩ :=
    usb_file foldOpts [[76]] "b" "w" (by simp) (fun _ _ => 0) interruptedTrace interruptedRan
      interruptedTrace_run interruptedTrace_apart.1 interruptedTrace_apart.2 hpossible hspared
  rw [hdelivered] at hwhole
  cases hwhole.symm.trans Gen2.liveWrites_cutPushes
  obtain ⟨q, hq, hret⟩ := Gen2.pushSchedule_returns
  obtain ⟨s, hs, hclosed⟩ := Gen2.shortWrites_closes
  rw [← hstreamed] at hq
  obtain ⟨-, hread⟩ := hfile q (Rawq.exec_run hq) hret
  exact ⟨q, s, hq, hs, (hread s (Pcapng.exec_run hs) hclosed).2⟩

end UsbSniffer.Transport
