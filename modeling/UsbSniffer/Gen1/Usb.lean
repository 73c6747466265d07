import UsbSniffer.Lib.Dialogue
import UsbSniffer.Gen1.Bounds
import UsbSniffer.Gen1.Sessions
import UsbSniffer.Pcapng.Reader

/-!
# A gen1 session, from the device to the file

`gen1/usb.c` around `gen1/capture.c`: `capture_start` sets up the device
and writes the headers, `usb_data_transfer` keeps `TRANSFER_COUNT`
transfers in flight, `usb_capture_callback` takes what they bring, and
`usb_close` cancels them. Events come in any order: a transfer completes
or times out with a part of its buffer, is cancelled, fails, or the user
stops the program.

What is done with the bytes is a parameter (`take`), since the callback
serves the capture and the speed test. `run_spec` says what was taken at
the end of any trace; `capture_file` reads the file of the capture back.
-/

namespace UsbSniffer.Gen1

/-! ## Transfers -/

namespace Usb

/-- `enum libusb_transfer_status`. -/
inductive Status where
  | completed
  | error
  | timedOut
  | cancelled
  | stall
  | noDevice
  | overflow
  deriving DecidableEq, Repr

/-- `TRANSFER_SIZE` and `TRANSFER_COUNT`, outside of Windows. -/
def transferSize : Nat := 512 * 2000

def transferCount : Nat := 16

/-- What happens to a session: the callback of a transfer, with its bytes
and the answer to its resubmission; a signal; the cancellations of
`usb_close`. -/
inductive Event where
  | callback (slot : Nat) (status : Status) (data : List UInt8) (accepted : Bool)
  | signal
  | close
  deriving DecidableEq, Repr

/-- The consumer of the bytes, the transfers `libusb` has, `g_stop`,
`g_usb_closing`, and whether the program ended in a callback. -/
structure Session (σ : Type) where
  consumer : σ
  inFlight : List Nat
  stop : Bool
  closing : Bool
  exited : Bool

variable {σ : Type} (take : σ → List UInt8 → Except σ σ)

/-- `libusb` hands a transfer back. -/
def Session.reclaim (s : Session σ) (slot : Nat) : Session σ :=
  { s with inFlight := s.inFlight.erase slot }

/-- `usb_capture_callback`. -/
def usbCaptureCallback (s : Session σ) (slot : Nat) (status : Status) (data : List UInt8)
    (accepted : Bool) : Session σ :=
  if s.closing then s
  else
    match status with
    | .cancelled | .noDevice => s
    | .completed | .timedOut =>
        match take s.consumer data with
        | .error c => { s with consumer := c, exited := true }
        | .ok c =>
            if accepted then { s with consumer := c, inFlight := slot :: s.inFlight }
            else { s with consumer := c, exited := true }
    | .error | .stall | .overflow => { s with exited := true }

/-- Behind `usb_close` the callback returns at once. -/
theorem usbCaptureCallback_closing {s : Session σ} (h : s.closing = true) (slot : Nat)
    (status : Status) (data : List UInt8) (accepted : Bool) :
    usbCaptureCallback take s slot status data accepted = s :=
  if_pos h

theorem usbCaptureCallback_open {s : Session σ} (h : s.closing = false) (slot : Nat)
    (status : Status) (data : List UInt8) (accepted : Bool) :
    usbCaptureCallback take s slot status data accepted =
      match status with
      | .cancelled | .noDevice => s
      | .completed | .timedOut =>
          match take s.consumer data with
          | .error c => { s with consumer := c, exited := true }
          | .ok c =>
              if accepted then { s with consumer := c, inFlight := slot :: s.inFlight }
              else { s with consumer := c, exited := true }
      | .error | .stall | .overflow => { s with exited := true } :=
  if_neg (by rw [h]; exact Bool.false_ne_true)

/-- One event of a program that is there. -/
def step (s : Session σ) : Event → Option (Session σ)
  | .callback slot status data accepted =>
      if s.exited ∨ slot ∉ s.inFlight ∨ transferSize < data.length then none
      else
        some (usbCaptureCallback take (s.reclaim slot) slot status data accepted)
  | .signal => if s.exited then none else some { s with stop := true }
  | .close =>
      -- the loop of `usb_data_transfer` is left on `g_stop` only
      if s.exited ∨ s.stop = false ∨ s.closing then none else some { s with closing := true }

def run (s : Session σ) : List Event → Option (Session σ)
  | [] => some s
  | e :: es => (step take s e).bind fun s' => run s' es

/-- `usb_data_transfer`, with all transfers submitted. -/
def start (c : σ) : Session σ where
  consumer := c
  inFlight := List.range transferCount
  stop := false
  closing := false
  exited := false

/-! ## What is taken -/

/-- The buffers of a trace the callback has to take. -/
def delivered : List Event → List (List UInt8)
  | [] => []
  | .callback _ status data _ :: es =>
      if status = .completed ∨ status = .timedOut then data :: delivered es else delivered es
  | .signal :: es => delivered es
  | .close :: _ => []

/-- The state to go on from, or the one of the exit. -/
def final {σ : Type} : Except σ σ → σ
  | .ok c => c
  | .error c => c

/-- No transfer is in flight twice. -/
structure Pooled (s : Session σ) : Prop where
  nodup : s.inFlight.Nodup
  slots : ∀ i ∈ s.inFlight, i < transferCount

section Runs

variable {take} {s s' : Session σ} {es : List Event}

theorem run_cons {e : Event} (h : run take s (e :: es) = some s') :
    ∃ t, step take s e = some t ∧ run take t es = some s' :=
  Option.bind_eq_some_iff.mp h

/-- What a callback needs. -/
theorem step_callback {slot : Nat} {status : Status} {data : List UInt8} {accepted : Bool}
    (h : step take s (.callback slot status data accepted) = some s') :
    s.exited = false ∧ slot ∈ s.inFlight ∧ data.length ≤ transferSize ∧
      s' = usbCaptureCallback take (s.reclaim slot) slot status data accepted := by
  rw [step] at h
  split at h
  · cases h
  · rename_i hok
    simp only [not_or, Bool.not_eq_true, not_not, not_lt] at hok
    exact ⟨hok.1, hok.2.1, hok.2.2, (Option.some.inj h).symm⟩

theorem step_signal (h : step take s .signal = some s') :
    s.exited = false ∧ s' = { s with stop := true } := by
  rw [step] at h
  split at h
  · cases h
  · rename_i hok
    exact ⟨Bool.eq_false_iff.mpr hok, (Option.some.inj h).symm⟩

theorem step_close (h : step take s .close = some s') :
    s.exited = false ∧ s.stop = true ∧ s.closing = false ∧ s' = { s with closing := true } := by
  rw [step] at h
  split at h
  · cases h
  · rename_i hok
    simp only [not_or, Bool.not_eq_true, Bool.not_eq_false] at hok
    exact ⟨hok.1, hok.2.1, hok.2.2, (Option.some.inj h).symm⟩

/-- A program that has ended does nothing. -/
theorem run_exited (hexit : s.exited = true) (h : run take s es = some s') : es = [] ∧ s' = s := by
  cases es with
  | nil => exact ⟨rfl, (Option.some.inj h).symm⟩
  | cons e es =>
      obtain ⟨t, hstep, -⟩ := run_cons h
      have hgone : s.exited = false := by
        cases e with
        | callback slot status data accepted => exact (step_callback hstep).1
        | signal => exact (step_signal hstep).1
        | close => exact (step_close hstep).1
      rw [hgone] at hexit
      cases hexit

/-- **Nothing is taken behind `usb_close`.** -/
theorem run_closing (hclosing : s.closing = true) (hexit : s.exited = false)
    (h : run take s es = some s') : s'.consumer = s.consumer ∧ s'.exited = false := by
  induction es generalizing s with
  | nil =>
      cases h
      exact ⟨rfl, hexit⟩
  | cons e es ih =>
      obtain ⟨t, hstep, hrest⟩ := run_cons h
      cases e with
      | callback slot status data accepted =>
          obtain ⟨-, -, -, rfl⟩ := step_callback hstep
          rw [usbCaptureCallback_closing take (s := s.reclaim slot) hclosing] at hrest
          exact ih (s := s.reclaim slot) hclosing hexit hrest
      | signal =>
          obtain ⟨-, rfl⟩ := step_signal hstep
          exact ih (s := { s with stop := true }) hclosing hexit hrest
      | close =>
          obtain ⟨-, -, hopen, -⟩ := step_close hstep
          rw [hopen] at hclosing
          cases hclosing

/-- **Any trace.** The consumer has taken the buffers that were
delivered, in their order and each one once, up to its own exit. -/
theorem run_spec (hclosing : s.closing = false) (hexit : s.exited = false)
    (h : run take s es = some s') :
    s'.consumer = final ((delivered es).foldlM take s.consumer) ∧
      (s'.exited = false → ∃ c, (delivered es).foldlM take s.consumer = .ok c) := by
  induction es generalizing s with
  | nil =>
      cases h
      exact ⟨rfl, fun _ => ⟨_, rfl⟩⟩
  | cons e es ih =>
      obtain ⟨t, hstep, hrest⟩ := run_cons h
      cases e with
      | callback slot status data accepted =>
          obtain ⟨-, -, -, rfl⟩ := step_callback hstep
          rw [usbCaptureCallback_open take (s := s.reclaim slot) hclosing] at hrest
          have hsame : (s.reclaim slot).consumer = s.consumer := rfl
          have hend : ∀ {t : Session σ}, t.exited = true → run take t es = some s' →
              es = [] ∧ s' = t := fun ht h => run_exited ht h
          cases status with
          | cancelled | noDevice => exact ih (s := s.reclaim slot) hclosing hexit hrest
          | error | stall | overflow =>
              obtain ⟨rfl, rfl⟩ := hend rfl hrest
              exact ⟨rfl, fun _ => ⟨_, rfl⟩⟩
          | completed | timedOut =>
              rw [delivered, if_pos (by simp), List.foldlM_cons]
              cases hdata : take s.consumer data with
              | error c =>
                  simp only [hsame, hdata] at hrest
                  obtain ⟨rfl, rfl⟩ := hend rfl hrest
                  exact ⟨rfl, fun hfalse => by cases hfalse⟩
              | ok c =>
                  simp only [hsame, hdata] at hrest
                  cases accepted with
                  | true =>
                      let t : Session σ :=
                        { s with consumer := c, inFlight := slot :: s.inFlight.erase slot }
                      exact ih (s := t) hclosing hexit hrest
                  | false =>
                      obtain ⟨rfl, rfl⟩ := hend rfl hrest
                      exact ⟨rfl, fun _ => ⟨c, rfl⟩⟩
      | signal =>
          obtain ⟨-, rfl⟩ := step_signal hstep
          exact ih (s := { s with stop := true }) hclosing hexit hrest
      | close =>
          obtain ⟨-, -, -, rfl⟩ := step_close hstep
          obtain ⟨hsame, -⟩ := run_closing (s := { s with closing := true }) rfl hexit hrest
          exact ⟨hsame, fun _ => ⟨_, rfl⟩⟩

theorem Pooled.step (hp : Pooled s) {e : Event} (h : step take s e = some s') : Pooled s' := by
  cases e with
  | callback slot status data accepted =>
      obtain ⟨-, hslot, -, rfl⟩ := step_callback h
      have herased : Pooled (s.reclaim slot) :=
        ⟨hp.nodup.erase slot, fun i hi => hp.slots i (List.mem_of_mem_erase hi)⟩
      have hagain : (slot :: s.inFlight.erase slot).Nodup :=
        List.nodup_cons.mpr ⟨hp.nodup.not_mem_erase, hp.nodup.erase slot⟩
      have hslots : ∀ i ∈ slot :: s.inFlight.erase slot, i < transferCount := by
        intro i hi
        rcases List.mem_cons.mp hi with rfl | hi
        · exact hp.slots _ hslot
        · exact herased.slots i hi
      cases hclosing : s.closing with
      | true =>
          rw [usbCaptureCallback_closing take (s := s.reclaim slot) hclosing]
          exact herased
      | false =>
        rw [usbCaptureCallback_open take (s := s.reclaim slot) hclosing]
        cases status with
        | cancelled | noDevice | error | stall | overflow => exact ⟨herased.nodup, herased.slots⟩
        | completed | timedOut =>
            dsimp only
            split
            · exact ⟨herased.nodup, herased.slots⟩
            · split
              · exact ⟨hagain, hslots⟩
              · exact ⟨herased.nodup, herased.slots⟩
  | signal =>
      obtain ⟨-, rfl⟩ := step_signal h
      exact ⟨hp.nodup, hp.slots⟩
  | close =>
      obtain ⟨-, -, -, rfl⟩ := step_close h
      exact ⟨hp.nodup, hp.slots⟩

theorem Pooled.run (hp : Pooled s) (h : run take s es = some s') : Pooled s' := by
  induction es generalizing s with
  | nil =>
      cases h
      exact hp
  | cons e es ih =>
      obtain ⟨t, hstep, hrest⟩ := run_cons h
      exact ih (hp.step hstep) hrest

end Runs

theorem pooled_start (c : σ) : Pooled (start c) :=
  ⟨List.nodup_range, fun _ hi => List.mem_range.mp hi⟩

end Usb

/-! ## The start

`capture_start` and `usb_speed_test` up to the transfers. The control
register of the FPGA is written bit by bit; what the endpoint still holds
is read and thrown away while the capture is held in reset. -/

namespace Usb

open Lib.Dialogue

/-- `open_capture_device`, a control transfer with its `wValue`, and a
bulk read with a timeout of 20 ms. -/
inductive Request where
  | openDevice
  | ctrl (value : Nat)
  | read
  deriving DecidableEq, Repr

/-- A read is answered by whether it timed out; a call that fails ends
the program with its text. -/
abbrev Host (α : Type) := Prog Request Bool String α

/-- `CTRL_REG_SIZE`, and the indices `CaptureCtrl_*`. -/
def ctrlRegSize : Nat := 4

def ctrlReset : Nat := 0
def ctrlEnable : Nat := 1
def ctrlSpeed0 : Nat := 2
def ctrlSpeed1 : Nat := 3
def ctrlTest : Nat := 4

def openCaptureDevice : Host Unit := do
  let _ ← Prog.call .openDevice "could not open a capture device"

/-- `usb_ctrl`. -/
def usbCtrl (index : Nat) (value : Bool) : Host Unit := do
  let _ ← Prog.call (.ctrl (index ||| (if value then 1 else 0) <<< ctrlRegSize)) "usb_ctrl()"

/-- The loop of `usb_flush_data`, with the turns that are left. -/
def usbFlushData : Nat → Host Unit
  | 0 => pure ()
  | turns + 1 => do
      if ← Prog.call .read "libusb_bulk_transfer()" then pure () else usbFlushData turns

/-- `usb_ctrl_init`. -/
def usbCtrlInit : Host Unit := do
  usbCtrl ctrlReset true
  usbCtrl ctrlEnable false
  usbCtrl ctrlTest false
  usbCtrl ctrlSpeed0 true
  usbCtrl ctrlSpeed0 false
  usbCtrl ctrlSpeed1 true
  usbCtrl ctrlSpeed1 false

/-- The values of `CaptureSpeed_*`. -/
def speedValue : CaptureSpeed → Nat
  | .ls => 0
  | .fs => 1
  | .hs => 2
  | .reset => 3

/-- `capture_start`, up to the headers. -/
def captureStart (speed : CaptureSpeed) : Host Unit := do
  openCaptureDevice
  usbCtrlInit
  usbCtrl ctrlEnable false
  usbCtrl ctrlReset true
  usbFlushData 100
  usbCtrl ctrlSpeed0 (speedValue speed &&& 1 ≠ 0)
  usbCtrl ctrlSpeed1 (speedValue speed &&& 2 ≠ 0)
  usbCtrl ctrlReset false
  usbCtrl ctrlEnable true

/-- `maint_speed_test` and `usb_speed_test`, up to the transfers. -/
def usbSpeedTest : Host Unit := do
  openCaptureDevice
  usbCtrlInit
  usbCtrl ctrlReset true
  usbCtrl ctrlTest true
  usbFlushData 100
  usbCtrl ctrlReset false

/-- What the calls mean for the board: the bits of the control register,
as far as they are known; whether something was read while the capture
was not held; the reads, and whether the last one found nothing. -/
structure Board where
  regs : Nat → Option Bool
  early : Bool
  reads : Nat
  quiet : Bool

def Board.initial : Board := ⟨fun _ => none, false, 0, false⟩

/-- One call, for the board. -/
def Board.step (b : Board) : Request × Option Bool → Board
  | (.openDevice, _) => b
  | (.ctrl value, answer) =>
      { b with regs := Function.update b.regs (value % 16) (answer.map fun _ => value / 16 % 2 = 1) }
  | (.read, answer) =>
      { b with
        early := b.early || decide (b.regs ctrlReset ≠ some true ∨ b.regs ctrlEnable ≠ some false)
        reads := b.reads + 1
        quiet := answer.getD false }

/-- A stage of the start: the register as it was written, and a fact
about the reads. -/
structure Stage (regs : Nat → Option Bool) (D : Nat → Bool → Prop) (b : Board) : Prop where
  regs : b.regs = regs
  held : b.early = false
  reads : D b.reads b.quiet

/-- The capture was not switched on, and nothing was read too early. -/
structure Off (b : Board) : Prop where
  enable : b.regs ctrlEnable ≠ some true
  held : b.early = false

/-- No read so far. -/
def Fresh (reads : Nat) (_quiet : Bool) : Prop := reads = 0

/-- The endpoint gave nothing more, or the turns were used up. -/
def Flushed (reads : Nat) (quiet : Bool) : Prop := quiet = true ∨ reads = 100

theorem ctrl_value : ∀ index < 16, ∀ value : Bool,
    (index ||| (if value then 1 else 0) <<< ctrlRegSize) % 16 = index ∧
      (decide ((index ||| (if value then 1 else 0) <<< ctrlRegSize) / 16 % 2 = 1)) = value := by
  decide

section Stages

variable {regs : Nat → Option Bool} {D : Nat → Bool → Prop}

theorem openCaptureDevice_spec (hoff : regs ctrlEnable ≠ some true) :
    Triple Board.step (Stage regs D) openCaptureDevice (fun _ => Stage regs D) fun _ => Off :=
  (Triple.call (Q := fun _ => Stage regs D) (fun _ _ h => h) fun _ h =>
    ⟨h.regs.symm ▸ hoff, h.held⟩).seq (Triple.pure fun _ h => h)

/-- One bit, while the capture is off. -/
theorem usbCtrl_spec {index : Nat} (hindex : index < 16) (value : Bool)
    (hoff : regs ctrlEnable ≠ some true) :
    Triple Board.step (Stage regs D) (usbCtrl index value)
      (fun _ => Stage (Function.update regs index (some value)) D) fun _ => Off := by
  obtain ⟨hmod, hdiv⟩ := ctrl_value index hindex value
  refine (Triple.call (Q := fun _ => Stage (Function.update regs index (some value)) D)
    (fun b r h => ⟨?_, h.held, h.reads⟩) fun b h => ⟨?_, h.held⟩).seq (Triple.pure fun _ h => h)
  · simp only [Board.step, hmod, hdiv, Option.map_some, h.regs]
  · simp only [Board.step, hmod, Option.map_none, h.regs]
    rw [Function.update_apply]
    split
    · exact fun h => by cases h
    · exact hoff

/-- **The flush** reads only while the capture is held. -/
theorem usbFlushData_spec (hreset : regs ctrlReset = some true)
    (hoff : regs ctrlEnable = some false) :
    Triple Board.step (Stage regs Fresh) (usbFlushData 100) (fun _ => Stage regs Flushed)
      fun _ => Off := by
  have hloop : ∀ turns n, Triple Board.step (Stage regs fun reads _ => reads = n) (usbFlushData turns)
      (fun _ => Stage regs fun reads quiet => quiet = true ∨ reads = n + turns) fun _ => Off := by
    intro turns
    induction turns with
    | zero => exact fun n => Triple.pure fun b h => ⟨h.regs, h.held, Or.inr h.reads⟩
    | succ turns ih =>
        intro n
        have hheld : ∀ b : Board, b.regs = regs → b.early = false → (b.early ||
            decide (b.regs ctrlReset ≠ some true ∨ b.regs ctrlEnable ≠ some false)) = false := by
          intro b hb hearly
          rw [hearly, hb, hreset, hoff]
          rfl
        have hread : Triple Board.step (Stage regs fun reads _ => reads = n)
            (Prog.call .read "libusb_bulk_transfer()")
            (fun timedOut => Stage regs fun reads quiet => reads = n + 1 ∧ quiet = timedOut)
            fun _ => Off := by
          refine Triple.call (fun b r h => ⟨h.regs, hheld b h.regs h.held, ?_⟩)
            fun b h => ⟨?_, hheld b h.regs h.held⟩
          · exact ⟨congrArg (· + 1) h.reads, rfl⟩
          · show b.regs ctrlEnable ≠ some true
            rw [h.regs, hoff]
            decide
        refine hread.bind fun timedOut => ?_
        cases timedOut with
        | true => exact Triple.pure fun b h => ⟨h.regs, h.held, Or.inl h.reads.2⟩
        | false =>
            refine (ih (n + 1)).conseq (fun b h => ⟨h.regs, h.held, h.reads.1⟩)
              (fun _ b h => ⟨h.regs, h.held, h.reads.imp_right fun h => ?_⟩) fun _ _ h => h
            omega
  exact (hloop 100 0).post fun _ b h => ⟨h.regs, h.held, h.reads.imp_right fun h => by omega⟩

end Stages

/-- The register behind some writes. -/
def written (ws : List (Nat × Bool)) : Nat → Option Bool :=
  ws.foldl (fun regs w => Function.update regs w.1 (some w.2)) fun _ => none

/-- What `usb_ctrl_init` writes. -/
def initWrites : List (Nat × Bool) :=
  [(ctrlReset, true), (ctrlEnable, false), (ctrlTest, false), (ctrlSpeed0, true), (ctrlSpeed0, false),
    (ctrlSpeed1, true), (ctrlSpeed1, false)]

theorem usbCtrlInit_spec (D : Nat → Bool → Prop) :
    Triple Board.step (Stage (written []) D) usbCtrlInit (fun _ => Stage (written initWrites) D)
      fun _ => Off := by
  refine (usbCtrl_spec (by decide) true (by decide)).seq ?_
  refine (usbCtrl_spec (by decide) false (by decide)).seq ?_
  refine (usbCtrl_spec (by decide) false (by decide)).seq ?_
  refine (usbCtrl_spec (by decide) true (by decide)).seq ?_
  refine (usbCtrl_spec (by decide) false (by decide)).seq ?_
  refine (usbCtrl_spec (by decide) true (by decide)).seq ?_
  exact usbCtrl_spec (by decide) false (by decide)

/-- The board is ready to capture at a speed. -/
structure Capturing (speed : CaptureSpeed) (b : Board) : Prop where
  reset : b.regs ctrlReset = some false
  enable : b.regs ctrlEnable = some true
  test : b.regs ctrlTest = some false
  speed0 : b.regs ctrlSpeed0 = some (decide (speedValue speed &&& 1 ≠ 0))
  speed1 : b.regs ctrlSpeed1 = some (decide (speedValue speed &&& 2 ≠ 0))
  held : b.early = false
  flushed : Flushed b.reads b.quiet

theorem captureStart_spec (speed : CaptureSpeed) :
    Triple Board.step (· = Board.initial) (captureStart speed) (fun _ => Capturing speed)
      fun _ => Off := by
  have hstart : ∀ b, b = Board.initial → Stage (written []) Fresh b := by
    rintro b rfl
    exact ⟨rfl, rfl, rfl⟩
  refine Triple.pre ?_ hstart
  refine (openCaptureDevice_spec (by decide)).seq ((usbCtrlInit_spec Fresh).seq ?_)
  refine (usbCtrl_spec (by decide) false (by decide)).seq ?_
  refine (usbCtrl_spec (by decide) true (by decide)).seq ?_
  refine (usbFlushData_spec (by decide) (by decide)).seq ?_
  have hoff : ∀ {regs : Nat → Option Bool} {i v}, i ≠ ctrlEnable → regs ctrlEnable ≠ some true →
      Function.update regs i v ctrlEnable ≠ some true := by
    intro regs i v hi h
    rwa [Function.update_of_ne hi.symm]
  refine (usbCtrl_spec (by decide) _ (by decide)).seq ?_
  refine (usbCtrl_spec (by decide) _ (hoff (by decide) (by decide))).seq ?_
  refine (usbCtrl_spec (by decide) false (hoff (by decide) (hoff (by decide) (by decide)))).seq ?_
  refine (usbCtrl_spec (by decide) true
    (hoff (by decide) (hoff (by decide) (hoff (by decide) (by decide))))).post fun _ b h => ?_
  refine ⟨?_, ?_, ?_, ?_, ?_, h.held, h.reads⟩
  all_goals
    rw [h.regs]
    rfl

/-- The board is ready for the speed test. -/
structure Testing (b : Board) : Prop where
  reset : b.regs ctrlReset = some false
  enable : b.regs ctrlEnable = some false
  test : b.regs ctrlTest = some true
  held : b.early = false
  flushed : Flushed b.reads b.quiet

theorem usbSpeedTest_spec :
    Triple Board.step (· = Board.initial) usbSpeedTest (fun _ => Testing) fun _ => Off := by
  have hstart : ∀ b, b = Board.initial → Stage (written []) Fresh b := by
    rintro b rfl
    exact ⟨rfl, rfl, rfl⟩
  refine Triple.pre ?_ hstart
  refine (openCaptureDevice_spec (by decide)).seq ((usbCtrlInit_spec Fresh).seq ?_)
  refine (usbCtrl_spec (by decide) true (by decide)).seq ?_
  refine (usbCtrl_spec (by decide) true (by decide)).seq ?_
  refine (usbFlushData_spec (by decide) (by decide)).seq ?_
  refine (usbCtrl_spec (by decide) false (by decide)).post fun _ b h => ?_
  refine ⟨?_, ?_, ?_, h.held, h.reads⟩
  all_goals
    rw [h.regs]
    rfl

/-- A board with two buffers of old data. -/
def staleBoard : Peer Request Bool := fun log c =>
  some (c = .read ∧ 2 ≤ (log.foldl Board.step Board.initial).reads)

end Usb

/-! ## The file -/

/-- `write_file_header`. -/
def fileHeader : List UInt8 :=
  Pcapng.writeBlockType 0x0a0d0d0a
    |> Pcapng.putWord 0x1a2b3c4d
    |> Pcapng.putHalf 1
    |> Pcapng.putHalf 0
    |> Pcapng.putWord 0xffffffff
    |> Pcapng.putWord 0xffffffff
    |> Pcapng.putOption 0x0002 (Pcapng.chars "USB Sniffer by Alex Taradov")
    |> Pcapng.putOption 0x0000 []
    |> Pcapng.sealBlock

/-- `link_type` of `write_usb_header`. -/
def linkType : CaptureSpeed → UInt32
  | .ls => 293
  | .fs => 294
  | .hs => 295
  | .reset => 288

/-- The blocks of `write_packet` and `write_str`, put together by the
statements that `pcapng.c` took over. -/
def recordWrite : Record UInt8 → Pcapng.Write
  | .epb ts data => .epb ts data
  | .info ts m => .info ts (Pcapng.chars (text m))

/-- What `fwrite` was given, in a session with these records. -/
def file (opts : PacketOpts) (out : List (Record UInt8)) : List UInt8 :=
  fileHeader ++ Pcapng.usbHeader (linkType opts.captureSpeed) ++ Pcapng.infoHeader ++
    Pcapng.blocks (out.map recordWrite)

/-- The section header gen1 writes. -/
def sectionBlock : Pcapng.Block := .sectionHeader 1 0 [⟨2, Pcapng.chars "USB Sniffer by Alex Taradov"⟩]

/-- A record as a reader should find it. -/
def recordBlock (r : Record UInt8) : Pcapng.Block :=
  .enhancedPacket (fileRecord r).1 (fileRecord r).2.1.toNat (fileRecord r).2.2 []

/-- The body of the section header. -/
def sectionBody : List UInt8 :=
  Pcapng.wordBytes 0x1a2b3c4d ++ Pcapng.halfBytes 1 ++ Pcapng.halfBytes 0 ++
    Pcapng.wordBytes 0xffffffff ++ Pcapng.wordBytes 0xffffffff ++
      Pcapng.optionBytes [⟨2, Pcapng.chars "USB Sniffer by Alex Taradov"⟩]

theorem readsAs_fileHeader : Lib.ReadsAs Pcapng.readBlock fileHeader sectionBlock := by
  have heq : fileHeader = Pcapng.framed 0x0a0d0d0a sectionBody := by decide +kernel
  have hbody : Pcapng.readBody (0x0a0d0d0a : UInt32).toNat sectionBody = some sectionBlock := by
    decide +kernel
  rw [heq]
  exact Pcapng.readsAs_framed hbody (by decide +kernel) (by decide +kernel)

theorem Written.inRange {c : Capture} (h : Written c) : ∀ r ∈ c.out, (recordWrite r).InRange := by
  intro r hr
  cases r with
  | epb ts data => exact Int.ofNat_le.mp (h.packets ts data hr).2
  | info ts m =>
      have hshort := h.texts ts m hr
      show (Pcapng.chars (text m)).length ≤ 511
      rw [Pcapng.chars, List.length_map]
      exact hshort

theorem recordWrite_packets (r : Record UInt8) : (recordWrite r).packets = [recordBlock r] := by
  cases r with
  | epb ts data => rfl
  | info ts m => rfl

/-- **The file reads back**, record by record. -/
theorem readFile_file (opts : PacketOpts) {c : Capture} (h : Written c) :
    Pcapng.readFile (file opts c.out) =
      some (sectionBlock :: (Pcapng.headerBlocks (linkType opts.captureSpeed)).tail ++
        c.out.map recordBlock) := by
  let first := (fileHeader, sectionBlock)
  let rest := (Pcapng.headerItems (linkType opts.captureSpeed)).tail
  let records := (c.out.map recordWrite).flatMap Pcapng.Write.items
  have hread : ∀ i ∈ first :: rest ++ records, Lib.ReadsAs Pcapng.readBlock i.1 i.2 := by
    intro i hi
    rcases List.mem_append.mp hi with hi | hi
    · rcases List.mem_cons.mp hi with rfl | hi
      · exact readsAs_fileHeader
      · exact Pcapng.headerItems_read _ i (List.mem_of_mem_tail hi)
    · obtain ⟨w, hw, hiw⟩ := List.mem_flatMap.mp hi
      obtain ⟨r, hr, rfl⟩ := List.mem_map.mp hw
      exact Pcapng.Write.items_read (h.inRange r hr) i hiw
  have hbytes : ((first :: rest ++ records).map Prod.fst).flatten = file opts c.out := by
    rw [List.map_append, List.flatten_append, Pcapng.blocks_items, file]
    simp only [first, rest, Pcapng.headerItems, Pcapng.headerBlocks, List.zip_cons_cons,
      List.zip_nil_right, List.tail_cons, List.map_cons, List.map_nil, List.flatten_cons,
      List.flatten_nil, List.append_nil, List.append_assoc]
  have hblocks : (first :: rest ++ records).map Prod.snd =
      sectionBlock :: (Pcapng.headerBlocks (linkType opts.captureSpeed)).tail ++
        c.out.map recordBlock := by
    have hrecords : (c.out.map recordWrite).flatMap Pcapng.Write.packets = c.out.map recordBlock := by
      rw [List.flatMap_map]
      simp only [recordWrite_packets]
      exact List.flatMap_pure_eq_map _ _
    rw [List.map_append, Pcapng.packets_items, hrecords]
    rfl
  have hall := Lib.readAll_flatten hread (Lib.length_le_flatten fun i hi => (hread i hi).ne_nil)
  rw [hbytes, hblocks] at hall
  exact hall

/-- **A gen1 session, from the transfers to the file.** In any trace of
events, with less than 2 GB taken: what the engine has seen is the
concatenation of the buffers that completed or timed out before
`usb_close`, however it was cut, each one once; every block fits
`capture_buf`; a reader takes the file back as the headers and the
records; and no transfer is in flight twice. -/
theorem capture_file (opts : PacketOpts) {es : List Usb.Event} {s : Usb.Session Capture}
    (hrun : Usb.run captureCallback (Usb.start (announce opts)) es = some s)
    (hsize : (Usb.delivered es).flatten.length < 2 ^ 31) :
    s.consumer = Usb.final (captureCallback (announce opts) (Usb.delivered es).flatten) ∧
      (s.exited = false → InBounds (Usb.delivered es).flatten.length s.consumer) ∧
      (∀ r ∈ s.consumer.out, (recordWrite r).block.length ≤ 4096) ∧
      Pcapng.readFile (file opts s.consumer.out) =
        some (sectionBlock :: (Pcapng.headerBlocks (linkType opts.captureSpeed)).tail ++
          s.consumer.out.map recordBlock) ∧
      s.inFlight.Nodup ∧ ∀ i ∈ s.inFlight, i < Usb.transferCount := by
  obtain ⟨hconsumer, hgoesOn⟩ := Usb.run_spec rfl rfl hrun
  have hpool := (Usb.pooled_start (announce opts)).run hrun
  have hwithin := capture_within opts hsize
  have hstart : (Usb.start (announce opts)).consumer = announce opts := rfl
  rw [foldlM_captureCallback, hstart] at hconsumer hgoesOn
  have hwritten : Written s.consumer := by
    rw [hconsumer]
    cases hr : captureCallback (announce opts) (Usb.delivered es).flatten with
    | ok c =>
        rw [hr] at hwithin
        exact hwithin.held.toWritten
    | error c =>
        rw [hr] at hwithin
        exact hwithin
  refine ⟨hconsumer, fun hexit => ?_, fun r hr => (hwritten.inRange r hr).fits,
    readFile_file opts hwritten, hpool.nodup, hpool.slots⟩
  obtain ⟨c, hc⟩ := hgoesOn hexit
  rw [hc] at hwithin hconsumer
  rw [hconsumer]
  exact hwithin

/-- Two frames in two transfers, the second one late and with a part of
the third frame; behind `usb_close` a transfer that had completed. -/
def splitTrace : List Usb.Event :=
  let bytes := encodeFrames false lowSpeedFrames
  [.callback 3 .completed (bytes.take 5) true, .signal,
    .callback 0 .timedOut ((bytes.drop 5).take 6) true, .close, .callback 1 .completed bytes true,
    .callback 3 .cancelled [] true]

theorem capture_file_splitTrace :
    ∃ s, Usb.run captureCallback (Usb.start (announce foldOpts)) splitTrace = some s ∧
      Pcapng.readFile (file foldOpts s.consumer.out) =
        some (sectionBlock :: (Pcapng.headerBlocks (linkType foldOpts.captureSpeed)).tail ++
          s.consumer.out.map recordBlock) := by
  have hsome : (Usb.run captureCallback (Usb.start (announce foldOpts)) splitTrace).isSome = true := by
    decide +kernel
  obtain ⟨s, hs⟩ := Option.isSome_iff_exists.mp hsome
  exact ⟨s, hs, (capture_file foldOpts hs (by decide +kernel)).2.2.2.1⟩

end UsbSniffer.Gen1
