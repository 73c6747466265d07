import Mathlib.Tactic

/-!
# What the frame layer writes

The records of `packet.c`: packets on interface 0 and text records on
interface 1. A text record is kept as the message it is, with its
arguments; `Msg.text` is the text the source's format strings give.

The duration of a line state is printed with `"%.2f"` from a C `float`.
It is rendered here by the arithmetic that stands behind it: the nearest
single-precision value of the quotient, then two decimals, both rounding
ties to even.
-/

namespace UsbSniffer

/-- `CaptureSpeed_*`. -/
inductive CaptureSpeed where
  | ls
  | fs
  | hs
  | reset
  deriving DecidableEq, Repr

/-- The state named in a `"Line state: "` record. -/
inductive LineName where
  | se0
  | j
  | k
  | undefined (dp dm : Nat)
  deriving DecidableEq, Repr

/-- The texts handed to `capture_info`. -/
inductive Msg where
  | keepAlive
  | periodicUpdate
  | lineState (name : LineName) (duration : Option Int)
  | triggerInput (level : Int)
  | startingCapture
  | waitingForTrigger
  | vbus (on : Bool)
  | busReset
  | detectedSpeed (speed : CaptureSpeed)
  | folded (count : Nat)
  | captureLimitReached
  | hardwareOverflow
  | phyError
  | desynchronization
  | packetHeader (bytes : List UInt8)
  | toggleError (received expected : Nat)
  | zeroBitError
  | dataSizeError (size : Nat)
  | linkLoss
  | plain (msg : String)
  | stopped (reason : String)
  deriving DecidableEq, Repr

/-! ## Printing a `float` with two decimals -/

/-- The quotient `a / b`, rounded to nearest, ties to even. -/
def divRoundEven (a b : Nat) : Nat :=
  let q := a / b
  let r := a % b
  if 2 * r < b then q else if b < 2 * r then q + 1 else q + q % 2

/-- The single-precision value nearest to `a / b`, as a fraction: scale
until the quotient has 24 significant bits, and round there. -/
def nearestFloat (a b : Nat) : Nat × Nat :=
  if a = 0 then (0, 1)
  else
    let up := ((List.range 64).find? fun k => b * 2 ^ 23 ≤ a * 2 ^ k).getD 0
    let down := ((List.range 64).find? fun k => a * 2 ^ up < b * 2 ^ k * 2 ^ 24).getD 0
    (divRoundEven (a * 2 ^ up) (b * 2 ^ down) * 2 ^ down, 2 ^ up)

/-- `"%.2f"` of `(float)delta / unit`. -/
def fixed2 (delta : Int) (unit : Nat) : String :=
  let v := nearestFloat delta.natAbs unit
  let n := divRoundEven (100 * v.1) v.2
  let frac := n % 100
  (if delta < 0 then "-" else "") ++ toString (n / 100) ++ "." ++
    (if frac < 10 then "0" else "") ++ toString frac

/-- The duration suffix of `line_state_event`. -/
def durationText (delta : Int) : String :=
  if delta < 1000 then " (" ++ fixed2 delta 1 ++ " ns)"
  else if delta < 1000000 then " (" ++ fixed2 delta 1000 ++ " us)"
  else " (" ++ fixed2 delta 1000000 ++ " ms)"

/-! ## The texts -/

/-- `"%02x "`. -/
def hexByte (b : UInt8) : String :=
  String.ofList [Nat.digitChar (b.toNat / 16), Nat.digitChar (b.toNat % 16), ' ']

def LineName.text : LineName → String
  | .se0 => "SE0"
  | .j => "J"
  | .k => "K"
  | .undefined dp dm =>
      "Undefined (DP=" ++ toString dp ++ " / DM=" ++ toString dm ++ ")"

def CaptureSpeed.text : CaptureSpeed → String
  | .ls => "Low-Speed"
  | .fs => "Full-Speed"
  | .hs => "High-Speed"
  | .reset => ""

/-- The text before `vsnprintf` cuts it. -/
def Msg.fullText : Msg → String
  | .keepAlive => "Keep-alive"
  | .periodicUpdate => "Periodic update"
  | .lineState name duration =>
      "Line state: " ++ name.text ++ (duration.map durationText).getD ""
  | .triggerInput level => "Trigger input = " ++ toString level
  | .startingCapture => "Starting capture"
  | .waitingForTrigger => "Waiting for a trigger"
  | .vbus on => "VBUS " ++ (if on then "ON" else "OFF")
  | .busReset => "--- Bus Reset ---"
  | .detectedSpeed speed => "Detected speed: " ++ speed.text
  | .folded count =>
      if count = 1 then "Folded empty frame" else "Folded " ++ toString count ++ " empty frames"
  | .captureLimitReached => "Capture limit reached"
  | .hardwareOverflow => "Hardware buffer overflow"
  | .phyError => "USB PHY error"
  | .desynchronization => "Error: frame desynchronization, resynchronizing"
  | .packetHeader bytes => "Packet header: " ++ String.join (bytes.map hexByte)
  | .toggleError received expected =>
      "Error: received toggle value " ++ toString received ++ ", expected " ++ toString expected
  | .zeroBitError => "Error: zero bit in the header is not zero"
  | .dataSizeError size => "Error: invalid data size (" ++ toString size ++ ")"
  | .linkLoss => "Error: USB link packet loss, resynchronized"
  | .plain msg => msg
  | .stopped reason => "Capture stopped: " ++ reason

/-- The text written: `capture_info` formats into 512 bytes and clamps
the length to what fits. -/
def Msg.text (m : Msg) : String := String.ofList (m.fullText.toList.take 511)

/-- A record handed to the pcapng writer: `pcapng_write_epb` (interface
0) or `pcapng_write_info` (interface 1). `β` is the type of a captured
byte. -/
inductive Record (β : Type) where
  | epb (ts : UInt64) (data : List β)
  | info (ts : UInt64) (msg : Msg)
  deriving DecidableEq, Repr

variable {β : Type}

/-- The timestamp of a record. -/
def Record.ts : Record β → UInt64
  | .epb ts _ => ts
  | .info ts _ => ts

end UsbSniffer
