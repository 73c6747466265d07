import UsbSniffer.Lib.Dialogue
import UsbSniffer.Command

/-!
# The control of a session

What `run_capture_gen2` tells the FPGA: the flush of what an earlier
session left, the probe of the link, the acknowledged init sequence with
one recovery by a device reset, and the command that ends the capture.
`cmd_exec` is the one of `cmd.c` with its clock and its retries; the
transport answers what it likes, and an ACK may come in with any of its
events.

`Told` is what a device knows that decodes the packets of the log.
`startup_ready` says what it knows when the capture starts, and
`session_disables` what it knows at the end.
-/

namespace UsbSniffer.Control

open Lib.Dialogue Uhsif Command

/-! ## The host -/

/-- A call of the transport or of the clock, or a look at the flags that
end the capture. -/
inductive Request where
  | write (pkt : List UInt8)
  | events (ms : Nat)
  | alive
  | now
  | sleep (ms : Nat)
  | discard
  | probe (ms : Nat)
  | reset
  | streamMode
  | goOn
deriving DecidableEq, Repr

/-- What it returns, and whether ACKs were parsed meanwhile. -/
structure Reply where
  value : Int
  acked : Bool
deriving DecidableEq, Repr

/-- The program stops in a call, waits for a clock that stands still, or
gives up. -/
inductive Stop where
  | exited
  | hung
  | error (msg : String)
deriving DecidableEq, Repr

abbrev Host (α : Type) := Prog Request Reply Stop α

def ask (q : Request) : Host Int := do
  let r ← Prog.call q .exited
  pure r.value

def transportAlive : Host Bool := do
  let v ← ask .alive
  pure (decide (v ≠ 0))

/-- `transport_events`, with the ACKs it feeds. -/
def transportEvents (ms : Nat) (c : Cmd) : Host (Cmd × Bool) := do
  let r ← Prog.call (.events ms) .exited
  pure (if r.acked then cmdAckEvent c else c, decide (r.value ≠ 0))

/-- `UHSIF_CMD_RESET` and its neighbours, and `UHSIF_CMD_TIMEOUT_MS`. -/
def cmdReset : UInt32 := 0x01
def cmdEnable : UInt32 := 0x02
def cmdSpeed : UInt32 := 0x03
def cmdTest : UInt32 := 0x04
def cmdUploadParams : UInt32 := 0x20
def cmdTimeoutMs : Int := 200

/-- `cmd_tx_quiet`. -/
def cmdTxQuiet (c : Cmd) (id param : UInt32) : Host Unit := do
  -- a refusal is logged only
  let _ ← ask (.write (buildPacket c id param))

/-- The wait of `cmd_exec`, and whether it returns from within. -/
def waitAck (deadline : Int) : Nat → Cmd → Host (Cmd × Bool)
  | 0, _ => Prog.stop .hung
  | turns + 1, c => do
      if (← ask .now) < deadline then
        let (c, _) ← transportEvents 20 c
        if c.ackSeen then pure ({ c with waiting := false, seq := c.seq + 1 }, true)
        else if ← transportAlive then waitAck deadline turns c
        else pure (c, false)
      else pure (c, false)

/-- The attempts of `cmd_exec` that are left. -/
def cmdAttempts (turns : Nat) (id param : UInt32) : Nat → Cmd → Host (Cmd × Bool)
  | 0, c => pure ({ c with fatal := true }, false)
  | left + 1, c => do
      if (← ask (.write (buildPacket c id param))) < 0 then pure (c, false)
      else
        let deadline := (← ask .now) + cmdTimeoutMs
        let (c, acked) ← waitAck deadline turns
          { c with suppress := false, waiting := true, ackSeen := false }
        if acked then pure (c, true)
        else
          let c := { c with waiting := false }
          if c.ackSeen then pure ({ c with seq := c.seq + 1 }, true)
          else if ← transportAlive then cmdAttempts turns id param left c
          else pure ({ c with fatal := true }, false)

/-- `cmd_exec`. -/
def cmdExec (turns : Nat) (c : Cmd) (id param : UInt32) : Host (Cmd × Bool) :=
  cmdAttempts turns id param cmdRetries c

/-- `capture_stop_and_flush`. -/
def captureStopAndFlush (c : Cmd) : Host Unit := do
  cmdTxQuiet c cmdEnable 0
  cmdTxQuiet c cmdReset 1
  let _ ← ask (.sleep 20)
  let _ ← ask .discard

/-- `LINK_PROBE_MS`. -/
def linkProbeMs : Nat := 400

/-- `capture_speed_probe`, with the bytes it measured. -/
def captureSpeedProbe (c : Cmd) : Host (Option Int) := do
  cmdTxQuiet c cmdUploadParams 4092
  cmdTxQuiet c cmdTest 1
  let _ ← ask (.sleep 20)
  let bytes ← ask (.probe linkProbeMs)
  cmdTxQuiet c cmdTest 0
  let _ ← ask (.sleep 20)
  let _ ← ask .discard
  pure (if bytes ≤ 0 then none else some bytes)

/-- `init` in `capture_init_cmds`. -/
def initCmds (speed : UInt32) : List (UInt32 × UInt32) :=
  [(cmdUploadParams, 4092), (cmdSpeed, speed), (cmdReset, 0), (cmdEnable, 1)]

/-- `capture_init_cmds`. -/
def captureInitCmds (turns : Nat) : List (UInt32 × UInt32) → Cmd → Host (Cmd × Bool)
  | [], c => pure (c, true)
  | (id, param) :: more, c => do
      let (c, acked) ← cmdExec turns c id param
      if acked then captureInitCmds turns more c else pure (c, false)

/-- One turn of the startup loop. -/
def startupAttempt (turns : Nat) (replay : Bool) (speed : UInt32) (c : Cmd) :
    Host (Cmd × Bool × Option Int) := do
  captureStopAndFlush c
  let link ← if replay then pure none else captureSpeedProbe c
  let (c, inited) ← captureInitCmds turns (initCmds speed) c
  pure (c, inited, link)

/-- The startup loop of `run_capture_gen2`. -/
def startup (turns : Nat) (replay : Bool) (speed : UInt32) : Host (Cmd × Option Int) := do
  let (c, inited, link) ← startupAttempt turns replay speed cmdInit
  if inited then pure (c, link)
  else
    let back ← ask .reset
    Prog.check (back ≠ 0) (.error "FPGA not responding and device reset is unavailable")
    let _ ← ask (.sleep 200)
    let (c, inited, link) ← startupAttempt turns replay speed cmdInit
    Prog.check (inited = true)
      (.error "FPGA did not acknowledge the init sequence after device reset")
    pure (c, link)

/-- The main event loop. -/
def eventLoop : Nat → Cmd → Host Cmd
  | 0, _ => Prog.stop .hung
  | turns + 1, c => do
      if (← ask .goOn) ≠ 0 then
        if ← transportAlive then
          let (c, more) ← transportEvents 50 c
          if more then eventLoop turns c else pure c
        else pure c
      else pure c

/-- The end of the session, and whether the transport was alive. -/
def sessionEnd (turns : Nat) (c : Cmd) : Host Bool := do
  if ← transportAlive then
    let (c, acked) ← cmdExec turns c cmdEnable 0
    if ¬ acked then cmdTxQuiet c cmdEnable 0
    let _ ← ask (.sleep 20)
    let _ ← transportEvents 20 c
    pure true
  else pure false

/-- `run_capture_gen2`, as far as it talks to the FPGA. -/
def runCapture (turns : Nat) (replay : Bool) (speed : UInt32) : Host Bool := do
  let (c, _) ← startup turns replay speed
  let _ ← ask .streamMode
  let c ← eventLoop turns c
  sessionEnd turns c

/-! ## The FPGA -/

/-- A command packet as the FPGA reads it: dropped unless the magic and
the checksum are right. -/
def readCommand (pkt : List UInt8) : Option (UInt32 × UInt32) :=
  let w0 := le32 (ptrAt pkt 0)
  let w1 := le32 (ptrAt pkt 4)
  let w2 := le32 (ptrAt pkt 8)
  let w3 := le32 (ptrAt pkt 12)
  if pkt.length = 16 ∧ w0.toUInt16 = cmdMagic16 ∧ w0 >>> 16 = (hdrCrc16 w1 w2 w3).toUInt32 then
    some (w1 &&& 0xff, w2)
  else none

/-- What the device was told since it was last reset. `acked` says
whether an ACK came in since a command was told, `refused` that a packet
was not taken since the reset or the start of the stream, and `dirty`
that the upstream was drained or measured while it was not told to stop.
`ignored` is a packet without the magic or with a wrong checksum; the
number of a command it does not look at. -/
structure Told where
  regs : UInt32 → Option UInt32
  acked : UInt32 → Bool
  last : Option UInt32
  refused : Bool
  dirty : Bool
  resets : Nat
  ignored : Bool

namespace Told

/-- At the start. -/
def silent : Told :=
  { regs := fun _ => none, acked := fun _ => false, last := none, refused := false, dirty := false
    resets := 0, ignored := false }

def tell (t : Told) (id param : UInt32) : Told :=
  { t with
    regs := Function.update t.regs id (some param)
    acked := Function.update t.acked id false
    last := some id }

def hear (t : Told) (pkt : List UInt8) : Told :=
  match readCommand pkt with
  | some (id, param) => t.tell id param
  | none => { t with ignored := true }

/-- An ACK comes in. -/
def ack (t : Told) : Told :=
  match t.last with
  | some id => { t with acked := Function.update t.acked id true }
  | none => t

/-- The upstream is drained: nothing may be on. -/
def drain (t : Told) : Told :=
  { t with
    dirty := t.dirty || !decide (t.regs cmdEnable = some 0) || decide (t.regs cmdTest = some 1) }

/-- It is measured: the capture may not be on. -/
def measure (t : Told) : Told :=
  { t with dirty := t.dirty || !decide (t.regs cmdEnable = some 0) }

def step (t : Told) : Request × Option Reply → Told
  | (_, none) => t
  | (.write pkt, some r) => if r.value < 0 then { t with refused := true } else t.hear pkt
  | (.events _, some r) => if r.acked then t.ack else t
  | (.discard, some _) => t.drain
  | (.probe _, some _) => t.measure
  | (.reset, some r) =>
      if r.value ≠ 0 then { silent with resets := t.resets + 1, ignored := t.ignored } else t
  | (.streamMode, some _) => { t with refused := false }
  | (_, some _) => t

/-- A command was told and acknowledged. -/
def Acked (t : Told) (id param : UInt32) : Prop := t.regs id = some param ∧ t.acked id = true

end Told

/-! ## Packets -/

/-- The low byte of `w1`. -/
theorem low_byte (seq : UInt8) {id : UInt32} (hid : id.toNat < 256) :
    ((seq.toUInt32 <<< 8) ||| id) &&& 0xff = id := by
  have hseq := seq.toNat_lt
  apply UInt32.toNat_inj.mp
  have hshift : (seq.toUInt32 <<< 8).toNat = seq.toNat <<< 8 := by
    rw [UInt32.toNat_shiftLeft, UInt8.toNat_toUInt32]
    show seq.toNat <<< 8 % 2 ^ 32 = _
    rw [Nat.shiftLeft_eq, Nat.mod_eq_of_lt (by omega)]
  rw [UInt32.toNat_and, UInt32.toNat_or, hshift, Nat.or_comm, or_shiftLeft_eq_add (n := 8) hid]
  show (id.toNat + seq.toNat * 2 ^ 8) &&& (2 ^ 8 - 1) = _
  rw [Nat.and_two_pow_sub_one_eq_mod]
  omega

/-- **The FPGA reads what `build_packet` built**, whatever the sequence
number. -/
theorem readCommand_buildPacket (c : Cmd) {id : UInt32} (hid : id.toNat < 256) (param : UInt32) :
    readCommand (buildPacket c id param) = some (id, param) := by
  obtain ⟨h0, h1, h2, h3⟩ := words_at_header
    (((hdrCrc16 ((c.seq.toUInt32 <<< 8) ||| id) param 0).toUInt32 <<< 16) ||| cmdMagic16.toUInt32)
    ((c.seq.toUInt32 <<< 8) ||| id) param 0 []
  obtain ⟨hmagic, hcrc⟩ := w0_halves (hdrCrc16 ((c.seq.toUInt32 <<< 8) ||| id) param 0) cmdMagic16
  have hlen : (buildPacket c id param).length = 16 := rfl
  simp only [List.append_nil] at h0 h1 h2 h3
  simp only [buildPacket] at hlen ⊢
  simp only [readCommand, h0, h1, h2, h3, hlen, hmagic, hcrc, low_byte c.seq hid, and_self, if_true]

namespace Told

theorem hear_buildPacket (t : Told) (c : Cmd) {id : UInt32} (hid : id.toNat < 256) (param : UInt32) :
    t.hear (buildPacket c id param) = t.tell id param := by
  rw [hear, readCommand_buildPacket c hid]

/-- A command that is sent again says nothing new. -/
theorem tell_tell (t : Told) (id param : UInt32) : (t.tell id param).tell id param = t.tell id param := by
  simp only [tell, Function.update_idem]

/-- The ACK is taken for the command that was told last. -/
theorem ack_tell (t : Told) (id param : UInt32) :
    (t.tell id param).ack =
      { t with
        regs := Function.update t.regs id (some param), acked := Function.update t.acked id true
        last := some id } := by
  simp only [ack, tell, Function.update_idem]

theorem Acked.tell {t : Told} {id param id' : UInt32} (h : t.Acked id param) (hne : id ≠ id')
    (param' : UInt32) : (t.tell id' param').ack.Acked id param := by
  rw [ack_tell]
  exact ⟨(Function.update_of_ne hne _ _).trans h.1, (Function.update_of_ne hne _ _).trans h.2⟩

theorem acked_ack_tell (t : Told) (id param : UInt32) : (t.tell id param).ack.Acked id param := by
  rw [ack_tell]
  exact ⟨Function.update_self .., Function.update_self ..⟩

end Told

/-! ## The command layer -/

/-- The device was reset so often, and could read every packet. -/
def Told.Sane (n : Nat) (t : Told) : Prop := t.resets = n ∧ t.ignored = false

theorem Told.Sane.tell {n : Nat} {t : Told} (h : t.Sane n) (id param : UInt32) :
    (t.tell id param).Sane n := h

theorem Told.Sane.ack {n : Nat} {t : Told} (h : t.Sane n) : t.ack.Sane n := by
  rw [Told.ack]
  split
  · exact h
  · exact h

section Triples

variable {n : Nat} {α : Type} {t : Told} {rest : Host α} {Q : α → Told → Prop}

/-- A call whose answer is only looked at. -/
theorem ask_then {q : Request} {f : Int → Host α} (hsane : t.Sane n)
    (h : ∀ r : Reply, From Told.step (t.step (q, some r)) (f r.value) Q fun _ => Told.Sane n) :
    From Told.step t (do let v ← ask q; f v) Q fun _ => Told.Sane n :=
  From.bind (From.bind (From.call (fun r => From.pure (h r)) hsane))

theorem alive_then {f : Bool → Host α} (hsane : t.Sane n)
    (h : ∀ b, From Told.step t (f b) Q fun _ => Told.Sane n) :
    From Told.step t (do let b ← transportAlive; f b) Q fun _ => Told.Sane n :=
  From.bind (ask_then hsane fun _ => From.pure (h _))

theorem events_then {ms : Nat} {c : Cmd} {f : Cmd × Bool → Host α} (hsane : t.Sane n)
    (hacked : ∀ more, From Told.step t.ack (f (cmdAckEvent c, more)) Q fun _ => Told.Sane n)
    (hquiet : ∀ more, From Told.step t (f (c, more)) Q fun _ => Told.Sane n) :
    From Told.step t (do let r ← transportEvents ms c; f r) Q fun _ => Told.Sane n := by
  refine From.bind (From.bind (From.call (fun r => From.pure ?_) hsane))
  obtain ⟨value, acked⟩ := r
  cases acked with
  | true => exact hacked _
  | false => exact hquiet _

/-! ### `cmd_exec` -/

/-- The command layer behind an acknowledged command. -/
def acknowledged (c : Cmd) : Cmd :=
  { c with seq := c.seq + 1, waiting := false, ackSeen := true, suppress := false }

/-- The wait ends with an ACK, or nothing has changed. -/
theorem waitAck_from (deadline : Int) (turns : Nat) (hsane : t.Sane n) {c : Cmd}
    (hwaiting : c.waiting = true) (hseen : c.ackSeen = false) :
    From Told.step t (waitAck deadline turns c)
      (fun r b => if r.2 then
          b = t.ack ∧ r.1 = { c with waiting := false, ackSeen := true, seq := c.seq + 1 }
        else b = t ∧ r.1 = c)
      fun _ => Told.Sane n := by
  induction turns with
  | zero => exact Triple.stop fun b hb => hb ▸ hsane
  | succ turns ih =>
      refine ask_then hsane fun r => ?_
      show From Told.step t (if r.value < deadline then _ else _) _ _
      split
      · have hevent : cmdAckEvent c = { c with ackSeen := true } := if_pos hwaiting
        refine events_then hsane (fun more => ?_) fun more => ?_
        · rw [hevent]
          exact From.pure ⟨rfl, rfl⟩
        · show From Told.step t (if c.ackSeen = true then _ else _) _ _
          rw [if_neg (by rw [hseen]; decide)]
          refine alive_then hsane fun b => ?_
          cases b with
          | true => exact ih
          | false => exact From.pure ⟨rfl, rfl⟩
      · exact From.pure ⟨rfl, rfl⟩

/-- **One command.** If it is acknowledged, it is what the device was told
last, by one packet or by several. -/
theorem cmdAttempts_spec (turns : Nat) {id : UInt32} (hid : id.toNat < 256) (param : UInt32)
    (left : Nat) (hsane : t.Sane n) (c : Cmd) :
    Triple Told.step (fun b => b = t ∨ b = t.tell id param) (cmdAttempts turns id param left c)
      (fun r b => if r.2 then b = (t.tell id param).ack ∧ r.1 = acknowledged c else b.Sane n)
      fun _ => Told.Sane n := by
  induction left generalizing c with
  | zero =>
      refine Triple.pure fun b hb => ?_
      obtain rfl | rfl := hb
      · exact hsane
      · exact hsane.tell id param
  | succ left ih =>
      refine Triple.of_from fun b hb => ?_
      have hb' : b.Sane n := by
        obtain rfl | rfl := hb
        · exact hsane
        · exact hsane.tell id param
      refine ask_then hb' fun r => ?_
      rw [Told.step]
      by_cases hrefused : r.value < 0
      · rw [if_pos hrefused, if_pos hrefused]
        exact From.pure hb'
      have htold : b.hear (buildPacket c id param) = t.tell id param := by
        rw [Told.hear_buildPacket b c hid]
        obtain rfl | rfl := hb
        · rfl
        · exact Told.tell_tell t id param
      rw [if_neg hrefused, if_neg hrefused, htold]
      have hsane' := hsane.tell id param
      refine ask_then hsane' fun now => From.bind ?_
      refine (waitAck_from (now.value + cmdTimeoutMs) turns hsane' (c := _) rfl rfl).post ?_
      rintro ⟨c', acked⟩ b' hwait
      cases acked with
      | true =>
          obtain ⟨rfl, rfl⟩ := hwait
          exact From.pure ⟨rfl, rfl⟩
      | false =>
          obtain ⟨rfl, rfl⟩ := hwait
          -- the retry
          refine alive_then hsane' fun alive => ?_
          cases alive with
          | true => exact (ih _).to_from (Or.inr rfl)
          | false => exact From.pure hsane'

theorem cmdExec_from (turns : Nat) (hsane : t.Sane n) (c : Cmd) {id : UInt32} (hid : id.toNat < 256)
    (param : UInt32) :
    From Told.step t (cmdExec turns c id param)
      (fun r b => if r.2 then b = (t.tell id param).ack ∧ r.1 = acknowledged c else b.Sane n)
      fun _ => Told.Sane n :=
  (cmdAttempts_spec turns hid param cmdRetries hsane c).to_from (Or.inl rfl)

/-- Commands that were told and acknowledged one after another. -/
def Told.obey (t : Told) (cmds : List (UInt32 × UInt32)) : Told :=
  cmds.foldl (fun t cmd => (t.tell cmd.1 cmd.2).ack) t

theorem captureInitCmds_from (turns : Nat) {cmds : List (UInt32 × UInt32)}
    (hcmds : ∀ cmd ∈ cmds, cmd.1.toNat < 256) (hsane : t.Sane n) (c : Cmd) :
    From Told.step t (captureInitCmds turns cmds c)
      (fun r b => if r.2 then b = t.obey cmds ∧ r.1 = cmds.foldl (fun c _ => acknowledged c) c
        else b.Sane n)
      fun _ => Told.Sane n := by
  induction cmds generalizing t c with
  | nil => exact From.pure ⟨rfl, rfl⟩
  | cons cmd cmds ih =>
      obtain ⟨id, param⟩ := cmd
      rw [List.forall_mem_cons] at hcmds
      refine From.bind ((cmdExec_from turns hsane c hcmds.1 param).post ?_)
      rintro ⟨c', acked⟩ b hexec
      cases acked with
      | true =>
          obtain ⟨rfl, rfl⟩ := hexec
          exact ih hcmds.2 (hsane.tell id param).ack _
      | false => exact From.pure hexec

/-! ### The startup -/

/-- Unless a packet was refused, the device was told these registers, and
nothing was drained while it was on. -/
def Stage (n : Nat) (regs : UInt32 → Option UInt32) (t : Told) : Prop :=
  t.Sane n ∧ (t.refused = true ∨ (t.regs = regs ∧ t.dirty = false))

variable {regs : UInt32 → Option UInt32}

theorem cmdTxQuiet_spec (c : Cmd) {id : UInt32} (hid : id.toNat < 256) (param : UInt32) :
    Triple Told.step (Stage n regs) (cmdTxQuiet c id param)
      (fun _ => Stage n (Function.update regs id (some param))) fun _ => Told.Sane n := by
  refine Triple.of_from fun b hb => ask_then hb.1 fun r => From.pure ?_
  rw [Told.step]
  split
  · exact ⟨hb.1, Or.inl rfl⟩
  · rw [Told.hear_buildPacket b c hid]
    refine ⟨hb.1.tell id param, hb.2.imp (fun h => h) fun ⟨hregs, hdirty⟩ => ⟨?_, hdirty⟩⟩
    exact congrArg (fun f => Function.update f id (some param)) hregs

theorem sleep_spec (ms : Nat) :
    Triple Told.step (Stage n regs) (ask (.sleep ms)) (fun _ => Stage n regs) fun _ => Told.Sane n :=
  Triple.of_from fun _ hb => From.bind (From.call (fun _ => From.pure hb) hb.1)

theorem discard_spec (henable : regs cmdEnable = some 0) (htest : regs cmdTest ≠ some 1) :
    Triple Told.step (Stage n regs) (ask .discard) (fun _ => Stage n regs) fun _ => Told.Sane n := by
  refine Triple.of_from fun b hb => From.bind (From.call (fun _ => From.pure ?_) hb.1)
  refine ⟨hb.1, hb.2.imp (fun h => h) fun ⟨hregs, hdirty⟩ => ⟨hregs, ?_⟩⟩
  show (b.dirty || !decide (b.regs cmdEnable = some 0) || decide (b.regs cmdTest = some 1)) = false
  rw [hregs, hdirty, decide_eq_true henable, decide_eq_false htest]
  rfl

theorem probe_spec (ms : Nat) (henable : regs cmdEnable = some 0) :
    Triple Told.step (Stage n regs) (ask (.probe ms)) (fun _ => Stage n regs) fun _ => Told.Sane n := by
  refine Triple.of_from fun b hb => From.bind (From.call (fun _ => From.pure ?_) hb.1)
  refine ⟨hb.1, hb.2.imp (fun h => h) fun ⟨hregs, hdirty⟩ => ⟨hregs, ?_⟩⟩
  show (b.dirty || !decide (b.regs cmdEnable = some 0)) = false
  rw [hregs, hdirty, decide_eq_true henable]
  rfl

/-- The registers behind the flush. -/
def flushedRegs : UInt32 → Option UInt32 :=
  Function.update (Function.update (fun _ => none) cmdEnable (some 0)) cmdReset (some 1)

theorem captureStopAndFlush_spec (c : Cmd) :
    Triple Told.step (Stage n fun _ => none) (captureStopAndFlush c) (fun _ => Stage n flushedRegs)
      fun _ => Told.Sane n := by
  refine (cmdTxQuiet_spec c (by decide) 0).seq ((cmdTxQuiet_spec c (by decide) 1).seq ?_)
  refine (sleep_spec 20).seq ((discard_spec (by decide) (by decide)).bind fun _ => ?_)
  exact Triple.pure fun _ h => h

/-- And behind the probe. -/
def probedRegs : UInt32 → Option UInt32 :=
  Function.update (Function.update (Function.update flushedRegs cmdUploadParams (some 4092)) cmdTest
    (some 1)) cmdTest (some 0)

theorem captureSpeedProbe_spec (c : Cmd) :
    Triple Told.step (Stage n flushedRegs) (captureSpeedProbe c) (fun _ => Stage n probedRegs)
      fun _ => Told.Sane n := by
  refine (cmdTxQuiet_spec c (by decide) 4092).seq ((cmdTxQuiet_spec c (by decide) 1).seq ?_)
  refine (sleep_spec 20).seq ((probe_spec linkProbeMs (by decide)).bind fun bytes => ?_)
  refine (cmdTxQuiet_spec c (by decide) 0).seq ((sleep_spec 20).seq ?_)
  exact (discard_spec (by decide) (by decide)).bind fun _ => Triple.pure fun _ h => h

/-- The FPGA is ready for a capture: it was told the whole configuration,
each command was acknowledged, and the last of them starts the capture.
Unless a packet was refused, the test mode is off and nothing was drained
while the FPGA was on. -/
structure Ready (speed : UInt32) (t : Told) : Prop where
  upload : t.Acked cmdUploadParams 4092
  speed : t.Acked cmdSpeed speed
  reset : t.Acked cmdReset 0
  enable : t.Acked cmdEnable 1
  last : t.last = some cmdEnable
  clean : t.refused = true ∨ (t.dirty = false ∧ t.regs cmdTest ≠ some 1)

theorem ready_obey (speed : UInt32) (htest : regs cmdTest ≠ some 1) (h : Stage n regs t) :
    Ready speed (t.obey (initCmds speed)) ∧ (t.obey (initCmds speed)).Sane n := by
  let t₁ := (t.tell cmdUploadParams 4092).ack
  let t₂ := (t₁.tell cmdSpeed speed).ack
  let t₃ := (t₂.tell cmdReset 0).ack
  have hobey : t.obey (initCmds speed) = (t₃.tell cmdEnable 1).ack := rfl
  rw [hobey]
  have hupload : t₁.Acked cmdUploadParams 4092 := Told.acked_ack_tell ..
  have hspeed : t₂.Acked cmdSpeed speed := Told.acked_ack_tell ..
  have hreset : t₃.Acked cmdReset 0 := Told.acked_ack_tell ..
  refine ⟨⟨?_, ?_, ?_, Told.acked_ack_tell .., ?_, ?_⟩, h.1⟩
  · exact ((hupload.tell (by decide) speed).tell (by decide) 0).tell (by decide) 1
  · exact (hspeed.tell (by decide) 0).tell (by decide) 1
  · exact hreset.tell (by decide) 1
  · rw [Told.ack_tell]
  · refine h.2.imp (fun hr => hr) fun ⟨hregs, hdirty⟩ => ⟨hdirty, ?_⟩
    have hsame : ((t₃.tell cmdEnable 1).ack).regs cmdTest = t.regs cmdTest := rfl
    rw [hsame, hregs]
    exact htest

/-- The command layer at the start of the capture. -/
def readyCmd : Cmd :=
  { seq := 4, waiting := false, ackSeen := true, fatal := false, suppress := false }

theorem startupAttempt_spec (turns : Nat) (replay : Bool) (speed : UInt32) :
    Triple Told.step (Stage n fun _ => none) (startupAttempt turns replay speed cmdInit)
      (fun r b => b.Sane n ∧ (r.2.1 = true → Ready speed b ∧ r.1 = readyCmd)) fun _ => Told.Sane n := by
  have hcmds : ∀ cmd ∈ initCmds speed, cmd.1.toNat < 256 := by
    intro cmd hcmd
    simp only [initCmds, List.mem_cons, List.not_mem_nil, or_false] at hcmd
    obtain rfl | rfl | rfl | rfl := hcmd
    · exact (by decide : cmdUploadParams.toNat < 256)
    · exact (by decide : cmdSpeed.toNat < 256)
    · exact (by decide : cmdReset.toNat < 256)
    · exact (by decide : cmdEnable.toNat < 256)
  -- the acknowledged part, from either stage
  have hinit : ∀ {regs : UInt32 → Option UInt32} (link : Option Int), regs cmdTest ≠ some 1 →
      Triple Told.step (Stage n regs)
        (do
          let (c, inited) ← captureInitCmds turns (initCmds speed) cmdInit
          pure (c, inited, link))
        (fun r b => b.Sane n ∧ (r.2.1 = true → Ready speed b ∧ r.1 = readyCmd))
        fun _ => Told.Sane n := by
    intro regs link htest
    refine Triple.of_from fun b hb => From.bind ?_
    refine (captureInitCmds_from turns hcmds hb.1 cmdInit).post ?_
    rintro ⟨c, inited⟩ b' hres
    cases inited with
    | true =>
        obtain ⟨rfl, rfl⟩ := hres
        obtain ⟨hready, hsane⟩ := ready_obey speed htest hb
        exact From.pure ⟨hsane, fun _ => ⟨hready, rfl⟩⟩
    | false => exact From.pure ⟨hres, fun h => nomatch h⟩
  refine (captureStopAndFlush_spec cmdInit).seq ?_
  cases replay with
  | true => exact (Triple.pure fun _ h => h).bind fun link => hinit link (by decide)
  | false => exact (captureSpeedProbe_spec cmdInit).bind fun link => hinit link (by decide)

/-- **The startup**, with one reset of the device at most. -/
theorem startup_spec (turns : Nat) (replay : Bool) (speed : UInt32) :
    From Told.step .silent (startup turns replay speed)
      (fun r b => (∃ n ≤ 1, b.Sane n) ∧ Ready speed b ∧ r.1 = readyCmd)
      fun _ b => ∃ n ≤ 1, b.Sane n := by
  have hfresh : ∀ n, Stage n (fun _ => none) { Told.silent with resets := n } :=
    fun n => ⟨⟨rfl, rfl⟩, Or.inr ⟨rfl, rfl⟩⟩
  have hattempt : ∀ n ≤ 1, From Told.step { Told.silent with resets := n }
      (startupAttempt turns replay speed cmdInit)
      (fun r b => b.Sane n ∧ (r.2.1 = true → Ready speed b ∧ r.1 = readyCmd))
      fun _ b => ∃ n ≤ 1, b.Sane n := fun n hn =>
    ((startupAttempt_spec turns replay speed).to_from (hfresh n)).conseq (fun _ h => h)
      (fun _ _ h => h) fun _ _ h => ⟨n, hn, h⟩
  refine From.bind ((hattempt 0 (by decide)).post ?_)
  rintro ⟨c, inited, link⟩ b ⟨hsane, hready⟩
  cases inited with
  | true => exact From.pure ⟨⟨0, by decide, hsane⟩, hready rfl⟩
  | false =>
      refine From.bind (From.bind (From.call (fun back => From.pure ?_) ⟨0, by decide, hsane⟩))
      by_cases hback : back.value ≠ 0
      · have hreset : b.step (.reset, some back) = { Told.silent with resets := 1 } := by
          rw [Told.step, if_pos hback, hsane.1, hsane.2]
          rfl
        rw [hreset]
        refine From.bind (From.check (fun _ => ?_) fun h => absurd hback h)
        refine From.bind (From.bind (From.call (fun _ => From.pure ?_) ⟨1, le_refl 1, rfl, rfl⟩))
        refine From.bind ((hattempt 1 (le_refl 1)).post ?_)
        rintro ⟨c', inited, link'⟩ b' ⟨hsane', hready'⟩
        refine From.bind (From.check (fun hinited => From.pure ?_) fun _ => ⟨1, le_refl 1, hsane'⟩)
        exact ⟨⟨1, le_refl 1, hsane'⟩, hready' hinited⟩
      · have hsame : b.step (.reset, some back) = b := if_neg hback
        rw [hsame]
        exact From.bind (From.check (fun h => absurd h hback) fun _ => ⟨0, by decide, hsane⟩)

/-! ### The capture and its end -/

/-- While the capture runs nothing is told. -/
theorem eventLoop_spec (turns : Nat) :
    Triple Told.step (fun b => b.Sane n ∧ b.refused = false ∧ b.regs = regs)
      (eventLoop turns readyCmd)
      (fun c b => (b.Sane n ∧ b.refused = false ∧ b.regs = regs) ∧ c = readyCmd)
      fun _ => Told.Sane n := by
  have hack : ∀ b : Told, b.Sane n ∧ b.refused = false ∧ b.regs = regs →
      b.ack.Sane n ∧ b.ack.refused = false ∧ b.ack.regs = regs := by
    intro b hb
    rw [Told.ack]
    split
    · exact hb
    · exact hb
  induction turns with
  | zero => exact Triple.stop fun _ hb => hb.1
  | succ turns ih =>
      refine Triple.of_from fun b hb => ask_then hb.1 fun r => ?_
      show From Told.step b (if r.value ≠ 0 then _ else _) _ _
      split
      · refine alive_then hb.1 fun alive => ?_
        cases alive with
        | false => exact From.pure ⟨hb, rfl⟩
        | true =>
            refine events_then hb.1 (fun more => ?_) fun more => ?_
            · cases more with
              | true => exact ih.to_from (hack b hb)
              | false => exact From.pure ⟨hack b hb, rfl⟩
            · cases more with
              | true => exact ih.to_from hb
              | false => exact From.pure ⟨hb, rfl⟩
      · exact From.pure ⟨hb, rfl⟩

/-- The FPGA was told to stop, and nothing since. -/
def Disabled (t : Told) : Prop :=
  t.refused = true ∨ (t.regs cmdEnable = some 0 ∧ t.last = some cmdEnable)

theorem Disabled.ack (h : Disabled t) : Disabled t.ack := by
  rw [Told.ack]
  split
  · exact h
  · exact h

theorem sessionEnd_from (turns : Nat) (c : Cmd) (hsane : t.Sane n) :
    From Told.step t (sessionEnd turns c)
      (fun alive b => b.Sane n ∧ if alive then Disabled b else b = t) fun _ => Told.Sane n := by
  -- the sleep and the events behind the command
  have hrest : ∀ (c : Cmd) {b : Told}, b.Sane n → Disabled b →
      From Told.step b (do
          let _ ← ask (.sleep 20)
          let _ ← transportEvents 20 c
          pure true)
        (fun alive b => b.Sane n ∧ if alive then Disabled b else b = t) fun _ => Told.Sane n := by
    intro c b hb hdisabled
    refine ask_then hb fun _ => events_then hb (fun _ => From.pure ?_) fun _ => From.pure ?_
    · exact ⟨hb.ack, hdisabled.ack⟩
    · exact ⟨hb, hdisabled⟩
  refine alive_then hsane fun alive => ?_
  cases alive with
  | false => exact From.pure ⟨hsane, rfl⟩
  | true =>
      refine From.bind ((cmdExec_from turns hsane c (by decide) 0).post ?_)
      rintro ⟨c', acked⟩ b hexec
      cases acked with
      | true =>
          obtain ⟨rfl, -⟩ := hexec
          refine hrest c' (hsane.tell cmdEnable 0).ack (Disabled.ack (Or.inr ⟨?_, rfl⟩))
          show Function.update t.regs cmdEnable (some 0) cmdEnable = some 0
          exact Function.update_self ..
      | false =>
          have hb : b.Sane n := hexec
          refine From.bind (From.bind (From.bind (From.call (fun r => From.pure (From.pure ?_)) hb)))
          rw [Told.step]
          split
          · exact hrest c' hb (Or.inl rfl)
          · rw [Told.hear_buildPacket b c' (by decide)]
            refine hrest c' (hb.tell cmdEnable 0) (Or.inr ⟨?_, rfl⟩)
            show Function.update b.regs cmdEnable (some 0) cmdEnable = some 0
            exact Function.update_self ..

end Triples

/-! ## The whole -/

/-- A device that answers at once. -/
example : ((startup 1 false 2).run fun _ _ => some ⟨1, true⟩).1 = .ok (readyCmd, some 1) := rfl

end UsbSniffer.Control
