import Mathlib.Data.Nat.Bitwise
import UsbSniffer.Lib.Dialogue
import UsbSniffer.Gen1.Jed
import UsbSniffer.Gen1.Jtag

/-!
# Programming the first generation's FPGA

`fpga_program_flash` of `gen1/fpga.c`: a JED file is parsed, the flash is
erased, and the rows and the feature row are written and read back, all
by JTAG transactions with polls of the busy flag in between.

The answers of the device are arbitrary, but a read is answered by all
the bytes that are asked for. What it is told is kept as `Chip`, after
the names of the commands: which rows were written since the last erase,
in which mode, and what was read back from them since.
`fpgaProgramFlash_verified` goes from the text of the file to the port of
the FPGA: a run that ends well has left exactly the rows of the file and
has read each of them back, and a run that does not has a reason.

`fpga_program_sram` is at the end: one scan carries the whole file
(`fpgaProgramSram_port`).
-/

namespace UsbSniffer.Gen1.Flash

open Lib.Dialogue Lib.Tap Jtag

/-! ## Transactions -/

/-- A transaction of a legal size. -/
abbrev SizedCall := { c : Call // c.Sized }

/-- How the program stops: a USB error, a busy flag that was not cleared
within the polls granted, an error of its own, or one of the parser. -/
inductive Stop where
  | usb
  | polling
  | error (msg : String)
  | jed (s : Jed.Stop)
deriving Repr, DecidableEq

/-- A read is answered by the bytes that were fetched. -/
abbrev Fpga (α : Type) := Prog SizedCall (Nat → UInt8) Stop α

def send (c : SizedCall) : Fpga Unit := do
  let _ ← Prog.call c .usb

def writeIr (ir : UInt32) : Fpga Unit := send ⟨.writeIr ir, trivial⟩

def writeDr (data : Nat → UInt8) (size : Nat) (h : 1 ≤ size := by decide) : Fpga Unit :=
  send ⟨.writeDr data size, h⟩

/-- The decoding in `usb_jtag_response`: a nibble from each byte that was
fetched. -/
def usbJtagResponseData (buf : Nat → UInt8) (count : Nat) : List UInt8 :=
  (List.range ((count + 3) / 4)).foldl
    (fun data i =>
      data.set (i / 2) (data.getD (i / 2) 0 ||| ((buf i &&& 0x0f) <<< UInt8.ofNat (i % 2 * 4))))
    (List.replicate ((count + 7) / 8) 0)

def responseData (buf : Nat → UInt8) (size : Nat) : Nat → UInt8 :=
  fun i => (usbJtagResponseData buf size).getD i 0

def readDr (size : Nat) (h : 1 ≤ size ∧ size ≤ 255 := by decide) : Fpga (Nat → UInt8) := do
  let buf ← Prog.call ⟨.readDr size, h⟩ .usb
  pure (responseData buf size)

def runClocks (count : Nat) : Fpga Unit := send ⟨.run count, trivial⟩

def sync : Fpga Unit := send ⟨.sync, trivial⟩

/-! ## The commands -/

def cmdIscEnable : UInt32 := 0xc6
def cmdLscCheckBusy : UInt32 := 0xf0
def cmdLscReadStatus : UInt32 := 0x3c
def cmdIscErase : UInt32 := 0x0e
def cmdLscInitAddress : UInt32 := 0x46
def cmdLscProgIncrNv : UInt32 := 0x70
def cmdLscProgFeature : UInt32 := 0xe4
def cmdLscReadFeature : UInt32 := 0xe7
def cmdLscProgFeabits : UInt32 := 0xf8
def cmdLscReadFeabits : UInt32 := 0xfb
def cmdLscReadIncrNv : UInt32 := 0x73
def cmdIscProgramDone : UInt32 := 0x5e
def cmdIscDisable : UInt32 := 0x26
def cmdIscNoop : UInt32 := 0xff
def cmdLscRefresh : UInt32 := 0x79

/-- `ISC_ENABLE_SRAM` and `ISC_ENABLE_FLASH`. -/
def iscEnableSram : UInt8 := 0x00
def iscEnableFlash : UInt8 := 0x08

/-- `ISC_ERASE_SRAM` and `ISC_ERASE_ALL_NV`. -/
def iscEraseSram : UInt8 := 0x01
def iscEraseAllNv : UInt8 := 0x0e

/-- `status`, from its four bytes. -/
def statusWord (buf : Nat → UInt8) : UInt32 :=
  (buf 0).toUInt32 ||| (buf 1).toUInt32 <<< 8 ||| (buf 2).toUInt32 <<< 16 ||| (buf 3).toUInt32 <<< 24

/-- `STATUS_BUSY` and `STATUS_FAIL`. -/
def statusBusy : UInt32 := 0x1000
def statusFail : UInt32 := 0x2000

/-- `poll_busy_flag`, with the polls granted. -/
def pollBusyFlag (turns : Nat) : Fpga Unit := do
  Prog.repeatWhile turns .polling do
    writeIr cmdLscCheckBusy
    let busy ← readDr 1
    pure (decide (busy 0 ≠ 0))
  writeIr cmdLscReadStatus
  let status ← readDr 32
  runClocks 8
  Prog.check (statusWord status &&& statusBusy = 0) (.error "poll_busy_flag(): busy")
  Prog.check (statusWord status &&& statusFail = 0) (.error "poll_busy_flag(): fail")

/-- One byte, as the data of a scan. -/
def single (b : UInt8) : Nat → UInt8 := fun _ => b

/-- `fpga_erase_flash`. -/
def fpgaEraseFlash (turns : Nat) : Fpga Unit := do
  -- the SRAM
  writeIr cmdIscEnable
  writeDr (single iscEnableSram) 8
  runClocks 8
  writeIr cmdIscErase
  writeDr (single iscEraseSram) 8
  runClocks 8
  writeIr cmdIscNoop
  -- the flash
  writeIr cmdIscEnable
  writeDr (single iscEnableFlash) 8
  runClocks 8
  writeIr cmdIscErase
  writeDr (single iscEraseAllNv) 8
  runClocks 8
  pollBusyFlag turns

/-- `&config[row * 16]`. -/
def rowData (config : Jed.Mem) (row : Nat) : Nat → UInt8 := fun i => config (row * 16 + i)

/-- The first bytes are the same, as `memcmp` and the comparison of two
words see them. -/
def sameBytes (n : Nat) (x y : Nat → UInt8) : Bool := (List.range n).all fun i => x i == y i

/-- The bytes of a number in memory. -/
def leBytes (v : Nat) : Nat → UInt8 := fun i => UInt8.ofNat (v >>> (8 * i))

/-- One turn of the programming loop. -/
def programRow (turns : Nat) (config : Jed.Mem) (row : Nat) : Fpga Unit := do
  writeIr cmdLscProgIncrNv
  writeDr (rowData config row) 128
  runClocks 1000
  pollBusyFlag turns

/-- One turn of the verification loop. -/
def verifyRow (config : Jed.Mem) (row : Nat) : Fpga Unit := do
  let tmp ← readDr 128
  runClocks 8
  Prog.check (sameBytes 16 tmp (rowData config row)) (.error "configuration verification failed")

/-- The configuration data, written and read back. -/
def programConfig (turns : Nat) (p : Jed.Parsed) : Fpga Unit := do
  writeIr cmdLscInitAddress
  runClocks 8
  Prog.upTo (p.bitCount / Jed.flashRowSize) (programRow turns p.config)
  writeIr cmdLscInitAddress
  runClocks 8
  writeIr cmdLscReadIncrNv
  runClocks 8
  Prog.upTo (p.bitCount / Jed.flashRowSize) (verifyRow p.config)

/-- The feature row. -/
def programFeature (turns : Nat) (row : Jed.Row) : Fpga Unit := do
  writeIr cmdLscInitAddress
  runClocks 8
  writeIr cmdLscProgFeature
  writeDr (leBytes row.feature.toNat) 64
  runClocks 8
  pollBusyFlag turns
  writeIr cmdLscReadFeature
  let featureVerify ← readDr 64
  runClocks 8
  Prog.check (sameBytes 8 featureVerify (leBytes row.feature.toNat))
    (.error "Feature Row verification failed")

/-- The feature bits. -/
def programFeabits (turns : Nat) (row : Jed.Row) : Fpga Unit := do
  writeIr cmdLscProgFeabits
  writeDr (leBytes row.feabits.toNat) 16
  runClocks 8
  pollBusyFlag turns
  writeIr cmdLscReadFeabits
  runClocks 8
  let feabitsVerify ← readDr 16
  Prog.check (sameBytes 2 feabitsVerify (leBytes row.feabits.toNat))
    (.error "FEABITS verification failed")

/-- The end of programming mode. -/
def exitProgramming (turns : Nat) : Fpga Unit := do
  writeIr cmdIscProgramDone
  runClocks 1000
  pollBusyFlag turns
  writeIr cmdIscDisable
  runClocks 8
  writeIr cmdIscNoop
  runClocks 100
  writeIr cmdLscRefresh
  runClocks 8
  writeIr cmdIscNoop
  runClocks 100
  sync

/-- `fpga_program_flash`, on a buffer with whatever stands in `config`. -/
def fpgaProgramFlash (turns : Nat) (data : List UInt8) (config : Jed.Mem) : Fpga Unit := do
  match Jed.parseJedFile data config with
  | .error s => Prog.stop (.jed s)
  | .ok p =>
      fpgaEraseFlash turns
      programConfig turns p
      programFeature turns p.row
      programFeabits turns p.row
      exitProgramming turns

/-! ## What the FPGA is told -/

/-- The flash of the FPGA, by the names of the commands. `mode` is the
operand of the last `ISC_ENABLE`; a cell holds what was written to it
since it was erased, and `seen` what was read back from it since.
`busy` counts the polls in a row that found the busy flag set. `synced`
says that nothing is left in the batch, and `faulty` that a transfer
failed, a status was bad, or something else was read than was written. -/
structure Chip where
  ir : UInt32
  mode : Option (List Bool)
  address : Nat
  rows : Nat → Option (List Bool)
  seen : Nat → Option (List Bool)
  feature : Option (List Bool)
  seenFeature : Option (List Bool)
  feabits : Option (List Bool)
  seenFeabits : Option (List Bool)
  busy : Nat
  synced : Bool
  faulty : Bool

/-- The mode in which the flash can be written. -/
def flashMode : List Bool := drBits (single iscEnableFlash) 8

/-- The bits that came out of the port, four in a byte. -/
def tdoBits (buf : Nat → UInt8) (size : Nat) : List Bool :=
  (List.range size).map (fun i => (buf (i / 4)).toNat.testBit (i % 4))

namespace Chip

/-- An instruction. -/
def loadIr (chip : Chip) (ir : UInt32) : Chip :=
  { chip with
    ir := ir
    address := if ir = cmdLscInitAddress then 0 else chip.address
    mode := if ir = cmdIscDisable then none else chip.mode
    busy := if ir = cmdLscCheckBusy then chip.busy else 0
    synced := false }

/-- `ISC_ERASE`, with its flags: bit 1 for the features, bit 2 for the
configuration. -/
def erase (chip : Chip) (flags : List Bool) : Chip :=
  { chip with
    rows := if flags.getD 2 false then fun _ => none else chip.rows
    seen := if flags.getD 2 false then fun _ => none else chip.seen
    feature := if flags.getD 1 false then none else chip.feature
    seenFeature := if flags.getD 1 false then none else chip.seenFeature
    feabits := if flags.getD 1 false then none else chip.feabits
    seenFeabits := if flags.getD 1 false then none else chip.seenFeabits }

/-- The operand of an instruction. -/
def operand (chip : Chip) (bits : List Bool) : Chip :=
  if chip.ir = cmdIscEnable then { chip with mode := some bits }
  else if chip.mode ≠ some flashMode then chip
  else if chip.ir = cmdIscErase then chip.erase bits
  else if chip.ir = cmdLscProgIncrNv then
    { chip with
      rows := Function.update chip.rows chip.address (some bits)
      seen := Function.update chip.seen chip.address none
      address := chip.address + 1 }
  else if chip.ir = cmdLscProgFeature then { chip with feature := some bits, seenFeature := none }
  else if chip.ir = cmdLscProgFeabits then { chip with feabits := some bits, seenFeabits := none }
  else chip

def loadDr (chip : Chip) (bits : List Bool) : Chip := { chip.operand bits with synced := false }

/-- The answer to a read, in the bits that came out of the port. -/
def answer (chip : Chip) (bits : List Bool) : Chip :=
  if chip.ir = cmdLscReadIncrNv then
    { chip with
      seen := Function.update chip.seen chip.address (some bits)
      address := chip.address + 1
      faulty := chip.faulty || (chip.rows chip.address).any (· != bits) }
  else if chip.ir = cmdLscReadFeature then
    { chip with seenFeature := some bits, faulty := chip.faulty || chip.feature.any (· != bits) }
  else if chip.ir = cmdLscReadFeabits then
    { chip with seenFeabits := some bits, faulty := chip.faulty || chip.feabits.any (· != bits) }
  else if chip.ir = cmdLscReadStatus then
    { chip with faulty := chip.faulty || (bits.getD 12 false || bits.getD 13 false) }
  else chip

/-- What `poll_busy_flag` takes for busy. -/
def busyAnswer (buf : Nat → UInt8) : Bool := responseData buf 1 0 ≠ 0

def hear (chip : Chip) (buf : Nat → UInt8) (size : Nat) : Chip :=
  { chip.answer (tdoBits buf size) with
    busy := if chip.ir = cmdLscCheckBusy ∧ busyAnswer buf = true then chip.busy + 1 else 0
    synced := false }

/-- One transaction. -/
def step (chip : Chip) : SizedCall × Option (Nat → UInt8) → Chip
  | (_, none) => { chip with synced := false, faulty := true }
  | (⟨.writeIr ir, _⟩, some _) => chip.loadIr ir
  | (⟨.writeDr data size, _⟩, some _) => chip.loadDr (drBits data size)
  | (⟨.readDr size, _⟩, some buf) => chip.hear buf size
  | (⟨.run _, _⟩, some _) => { chip with synced := false }
  | (⟨.sync, _⟩, some _) => { chip with synced := true }

/-- At the start nothing is known. -/
def unknown : Chip where
  ir := 0
  mode := none
  address := 0
  rows := fun _ => none
  seen := fun _ => none
  feature := none
  seenFeature := none
  feabits := none
  seenFeabits := none
  busy := 0
  synced := true
  faulty := false

end Chip

/-! ## The bits of a response -/

theorem nibble_bit (x : UInt8) {s b : Nat} (hs : s < 2) (hb : b < 8) :
    ((x &&& 0x0f) <<< UInt8.ofNat (s * 4)).toNat.testBit b =
      (decide (b / 4 = s) && x.toNat.testBit (b % 4)) := by
  have hall : ∀ (x : Fin 256) (s : Fin 2) (b : Fin 8),
      ((UInt8.ofNat x &&& 0x0f) <<< UInt8.ofNat (s * 4)).toNat.testBit b =
        (decide (b.1 / 4 = s.1) && (UInt8.ofNat x).toNat.testBit (b % 4)) := by decide +kernel
  have h := hall ⟨x.toNat, x.toNat_lt⟩ ⟨s, hs⟩ ⟨b, hb⟩
  rwa [UInt8.ofNat_toNat] at h

/-- The bytes after `k` nibbles. -/
theorem nibbles_spec (buf : Nat → UInt8) (n : Nat) {k : Nat} (hk : k ≤ 2 * n) :
    let data := (List.range k).foldl
      (fun data i =>
        data.set (i / 2) (data.getD (i / 2) 0 ||| ((buf i &&& 0x0f) <<< UInt8.ofNat (i % 2 * 4))))
      (List.replicate n 0)
    data.length = n ∧ ∀ j b, b < 8 → (data.getD j 0).toNat.testBit b =
      (decide (2 * j + b / 4 < k) && (buf (2 * j + b / 4)).toNat.testBit (b % 4)) := by
  induction k with
  | zero =>
      refine ⟨List.length_replicate, fun j b _ => ?_⟩
      have hzero : (List.replicate n (0 : UInt8)).getD j 0 = 0 := by
        rw [List.getD_eq_getElem?_getD, List.getElem?_replicate]
        split
        · rfl
        · rfl
      rw [List.range_zero, List.foldl_nil, hzero, decide_eq_false (Nat.not_lt_zero _), Bool.false_and]
      exact Nat.zero_testBit b
  | succ k ih =>
      obtain ⟨hlen, hbits⟩ := ih (by omega)
      rw [List.range_succ, List.foldl_append]
      refine ⟨by rw [List.foldl_cons, List.foldl_nil, List.length_set, hlen], fun j b hb => ?_⟩
      rw [List.foldl_cons, List.foldl_nil, List.getD_eq_getElem?_getD, List.getElem?_set]
      by_cases hj : k / 2 = j
      · rw [if_pos hj, if_pos (by omega), Option.getD_some, UInt8.toNat_or, Nat.testBit_or, hj,
          hbits j b hb, nibble_bit _ (by omega) hb]
        by_cases hnew : 2 * j + b / 4 = k
        · rw [hnew, decide_eq_false (Nat.lt_irrefl k), Bool.false_and, Bool.false_or,
            decide_eq_true (by omega : b / 4 = k % 2), decide_eq_true (Nat.lt_succ_self k)]
        · rw [decide_eq_false (by omega : ¬ b / 4 = k % 2), Bool.false_and, Bool.or_false]
          congr 1
          exact decide_eq_decide.mpr (by omega)
      · rw [if_neg hj, ← List.getD_eq_getElem?_getD, hbits j b hb]
        congr 1
        exact decide_eq_decide.mpr (by omega)

/-- **The data of a response are the bits of the port**, the first of
them lowest. -/
theorem responseData_bit (buf : Nat → UInt8) {size i : Nat} (hi : i < size) :
    (responseData buf size (i / 8)).toNat.testBit (i % 8) = (buf (i / 4)).toNat.testBit (i % 4) := by
  have hspec := (nibbles_spec buf ((size + 7) / 8) (k := (size + 3) / 4) (by omega)).2 (i / 8) (i % 8)
    (Nat.mod_lt _ (by decide))
  have hnibble : 2 * (i / 8) + i % 8 / 4 = i / 4 := by omega
  have hbit : i % 8 % 4 = i % 4 := by omega
  have hin : i / 4 < (size + 3) / 4 := by omega
  rwa [hnibble, hbit, decide_eq_true hin, Bool.true_and] at hspec

theorem drBits_responseData (buf : Nat → UInt8) (size : Nat) :
    drBits (responseData buf size) size = tdoBits buf size :=
  List.map_congr_left fun _ hi => responseData_bit buf (List.mem_range.mp hi)

/-- A bit of the second byte of the status. -/
theorem statusWord_bit (data : Nat → UInt8) {k : Nat} (hk : k < 8) :
    (statusWord data).toNat.testBit (8 + k) = (data 1).toNat.testBit k := by
  have hlow : (data 0).toNat.testBit (8 + k) = false :=
    Nat.testBit_lt_two_pow
      (Nat.lt_of_lt_of_le (data 0).toNat_lt (Nat.pow_le_pow_right (by decide) (by omega)))
  have hshift : ∀ (x : UInt8) (s : Nat), (x.toNat <<< s % 4294967296).testBit (8 + k) =
      (decide (s ≤ 8 + k) && x.toNat.testBit (8 + k - s)) := by
    intro x s
    show (x.toNat <<< s % 2 ^ 32).testBit (8 + k) = _
    rw [Nat.testBit_mod_two_pow, Nat.testBit_shiftLeft, decide_eq_true (by omega : 8 + k < 32),
      Bool.true_and]
  have h8 : decide (8 ≤ 8 + k) = true := decide_eq_true (by omega)
  have h16 : decide (16 ≤ 8 + k) = false := decide_eq_false (by omega)
  have h24 : decide (24 ≤ 8 + k) = false := decide_eq_false (by omega)
  rw [statusWord, UInt32.toNat_or, UInt32.toNat_or, UInt32.toNat_or, Nat.testBit_or, Nat.testBit_or,
    Nat.testBit_or]
  simp only [UInt32.toNat_shiftLeft, UInt8.toNat_toUInt32, UInt32.reduceToNat, Nat.reduceMod,
    Nat.reducePow, hshift, h8, h16, h24, hlow]
  simp

theorem and_mask_eq_zero_iff (x : UInt32) {mask : UInt32} {n : Nat} (hmask : mask.toNat = 2 ^ n) :
    x &&& mask = 0 ↔ x.toNat.testBit n = false := by
  rw [← UInt32.toNat_inj, UInt32.toNat_and, hmask, Nat.and_two_pow]
  cases x.toNat.testBit n with
  | false => simp
  | true => simp

/-- A status bit that is checked, as it came out of the port. -/
theorem status_iff (buf : Nat → UInt8) {mask : UInt32} {k : Nat} (hk : k < 8)
    (hmask : mask.toNat = 2 ^ (8 + k)) :
    statusWord (responseData buf 32) &&& mask = 0 ↔ (tdoBits buf 32).getD (8 + k) false = false := by
  have hbit : (tdoBits buf 32).getD (8 + k) false = (responseData buf 32 1).toNat.testBit k := by
    rw [← drBits_responseData, drBits, List.getD_eq_getElem?_getD, List.getElem?_map,
      List.getElem?_range (by omega)]
    show (responseData buf 32 ((8 + k) / 8)).toNat.testBit ((8 + k) % 8) = _
    rw [(by omega : (8 + k) / 8 = 1), (by omega : (8 + k) % 8 = k)]
  rw [and_mask_eq_zero_iff _ hmask, statusWord_bit _ hk, hbit]

/-! ## Execution -/

section Execution

open Chip

/-- Where the program stops, all the polls granted found the chip busy, a
transfer failed, or something was wrong with what the device said. -/
def ChipError (turns : Nat) (e : Stop) (chip : Chip) : Prop :=
  (e = .polling ∧ turns ≤ chip.busy) ∨ chip.faulty = true

variable {turns : Nat} {α : Type} {chip : Chip} {rest : Fpga α} {Q : α → Chip → Prop}

theorem send_from {c : SizedCall} {Q : Unit → Chip → Prop} (h : ∀ r, Q () (chip.step (c, some r))) :
    From Chip.step chip (send c) Q (ChipError turns) :=
  From.bind (From.call (fun r => From.pure (h r)) (Or.inr rfl))

theorem writeIr_then {ir : UInt32} (h : From Chip.step (chip.loadIr ir) rest Q (ChipError turns)) :
    From Chip.step chip (do writeIr ir; rest) Q (ChipError turns) :=
  From.bind (send_from fun _ => h)

theorem writeDr_then {data : Nat → UInt8} {size : Nat} {hsize : 1 ≤ size}
    (h : From Chip.step (chip.loadDr (drBits data size)) rest Q (ChipError turns)) :
    From Chip.step chip (do writeDr data size hsize; rest) Q (ChipError turns) :=
  From.bind (send_from fun _ => h)

theorem runClocks_then {count : Nat}
    (h : From Chip.step { chip with synced := false } rest Q (ChipError turns)) :
    From Chip.step chip (do runClocks count; rest) Q (ChipError turns) :=
  From.bind (send_from fun _ => h)

theorem readDr_then {size : Nat} {hsize : 1 ≤ size ∧ size ≤ 255} {f : (Nat → UInt8) → Fpga α}
    (h : ∀ buf, From Chip.step (chip.hear buf size) (f (responseData buf size)) Q
      (ChipError turns)) :
    From Chip.step chip (do let data ← readDr size hsize; f data) Q (ChipError turns) :=
  From.bind (From.bind (From.call (fun buf => From.pure (h buf)) (Or.inr rfl)))

/-- The busy flag is polled until it is clear, and the status is good:
nothing has changed but the instruction. -/
theorem pollBusyFlag_from (turns : Nat) (chip : Chip) :
    From Chip.step chip (pollBusyFlag turns)
      (fun _ b => b = chip.loadIr cmdLscReadStatus) (ChipError turns) := by
  -- the polls change the instruction and their count only
  let polled (n : Nat) : Chip := { chip.loadIr cmdLscCheckBusy with busy := n }
  let I (k : Nat) (b : Chip) : Prop := (k = 0 ∧ b = chip) ∨ ∃ n, b = polled n ∧ k ≤ n
  have hpolls : Triple Chip.step (I 0)
      (Prog.repeatWhile turns .polling do
        writeIr cmdLscCheckBusy
        let busy ← readDr 1
        pure (decide (busy 0 ≠ 0)))
      (fun _ b => b = chip ∨ ∃ n, b = polled n) (ChipError turns) := by
    refine Triple.repeatWhile (I := I) (fun k _ => Triple.of_from fun b hb => ?_) fun b hb => ?_
    · have hasked : b.loadIr cmdLscCheckBusy = polled b.busy ∧ k ≤ b.busy := by
        rcases hb with ⟨rfl, rfl⟩ | ⟨n, rfl, hn⟩
        · exact ⟨rfl, Nat.zero_le _⟩
        · exact ⟨rfl, hn⟩
      refine writeIr_then (readDr_then fun buf => From.pure ?_)
      rw [hasked.1]
      have hheard : (polled b.busy).hear buf 1 =
          polled (if busyAnswer buf = true then b.busy + 1 else 0) := by
        show ({ polled b.busy with
          busy := if cmdLscCheckBusy = cmdLscCheckBusy ∧ busyAnswer buf = true then b.busy + 1
            else 0 } : Chip) = _
        simp only [true_and, polled]
      rw [hheard]
      show if busyAnswer buf = true then _ else _
      split
      · exact Or.inr ⟨_, rfl, by omega⟩
      · exact Or.inr ⟨_, rfl⟩
    · -- all of them found it busy
      rcases hb with ⟨rfl, rfl⟩ | ⟨n, rfl, hn⟩
      · exact Or.inl ⟨rfl, Nat.zero_le _⟩
      · exact Or.inl ⟨rfl, hn⟩
  refine From.bind ((hpolls.to_from (Or.inl ⟨rfl, rfl⟩)).post fun _ b hb => ?_)
  refine writeIr_then (readDr_then fun buf => runClocks_then ?_)
  have hstatus : { (b.loadIr cmdLscReadStatus).hear buf 32 with synced := false } =
      { chip.loadIr cmdLscReadStatus with
        faulty := chip.faulty ||
          ((tdoBits buf 32).getD 12 false || (tdoBits buf 32).getD 13 false) } := by
    rcases hb with rfl | ⟨n, rfl⟩
    · rfl
    · rfl
  rw [hstatus]
  have hbusy := @status_iff buf statusBusy 4 (by decide) (by decide)
  have hfail := @status_iff buf statusFail 5 (by decide) (by decide)
  refine From.bind (From.check (fun hb' => From.check (fun hf' => ?_) fun hf' => ?_) fun hb' => ?_)
  · show _ = chip.loadIr cmdLscReadStatus
    rw [hbusy.mp hb', hfail.mp hf', Bool.or_false, Bool.or_false]
    rfl
  · refine Or.inr ?_
    have hset : (tdoBits buf 32).getD 13 false = true :=
      Bool.eq_true_of_not_eq_false fun h => hf' (hfail.mpr h)
    show (chip.faulty || (_ || (tdoBits buf 32).getD 13 false)) = true
    rw [hset, Bool.or_true, Bool.or_true]
  · refine Or.inr ?_
    have hset : (tdoBits buf 32).getD 12 false = true :=
      Bool.eq_true_of_not_eq_false fun h => hb' (hbusy.mpr h)
    show (chip.faulty || ((tdoBits buf 32).getD 12 false || _)) = true
    rw [hset, Bool.true_or, Bool.or_true]

/-- The flash after an erase. -/
def erased (chip : Chip) : Chip :=
  { chip with
    ir := cmdLscReadStatus, mode := some flashMode, rows := fun _ => none, seen := fun _ => none
    feature := none, seenFeature := none, feabits := none, seenFeabits := none, busy := 0
    synced := false }

theorem fpgaEraseFlash_from (turns : Nat) (chip : Chip) :
    From Chip.step chip (fpgaEraseFlash turns) (fun _ b => b = erased chip) (ChipError turns) := by
  refine writeIr_then (writeDr_then (runClocks_then (writeIr_then (writeDr_then (runClocks_then
    (writeIr_then (writeIr_then (writeDr_then (runClocks_then (writeIr_then (writeDr_then
      (runClocks_then ?_))))))))))))
  refine (pollBusyFlag_from turns _).post fun _ b hb => hb.trans ?_
  rfl

/-- The bits of whole bytes are the bytes. -/
theorem sameBytes_iff (n : Nat) (x y : Nat → UInt8) :
    sameBytes n x y = true ↔ drBits x (8 * n) = drBits y (8 * n) := by
  rw [sameBytes, List.all_eq_true]
  constructor
  · intro h
    refine List.map_congr_left fun j hj => ?_
    rw [eq_of_beq (h (j / 8) (List.mem_range.mpr (by have := List.mem_range.mp hj; omega)))]
  · intro h i hi
    have hlt := List.mem_range.mp hi
    rw [beq_iff_eq, ← UInt8.toNat_inj]
    refine Nat.eq_of_testBit_eq fun k => ?_
    by_cases hk : k < 8
    · have hbit := List.map_inj_left.mp h (8 * i + k) (List.mem_range.mpr (by omega))
      have hdiv : (8 * i + k) / 8 = i := by omega
      have hmod : (8 * i + k) % 8 = k := by omega
      rwa [hdiv, hmod] at hbit
    · have hbig : 2 ^ 8 ≤ 2 ^ k := Nat.pow_le_pow_right (by decide) (by omega)
      rw [Nat.testBit_lt_two_pow (Nat.lt_of_lt_of_le (x i).toNat_lt hbig),
        Nat.testBit_lt_two_pow (Nat.lt_of_lt_of_le (y i).toNat_lt hbig)]

/-- What a comparison of the data read with the data written says: the
bits that came out are the bits that went in. -/
theorem verified_iff (n : Nat) (buf data : Nat → UInt8) :
    sameBytes n (responseData buf (8 * n)) data = true ↔ drBits data (8 * n) = tdoBits buf (8 * n) := by
  rw [sameBytes_iff, drBits_responseData]
  exact eq_comm

/-- A comparison with the data written: the bits agree, or the chip is
known to be faulty. -/
theorem readback_from (n : Nat) (buf data : Nat → UInt8) {m : Chip} {msg : String}
    {Q : Unit → Chip → Prop} (hsame : drBits data (8 * n) = tdoBits buf (8 * n) → Q () m)
    (hother : drBits data (8 * n) ≠ tdoBits buf (8 * n) → m.faulty = true) :
    From Chip.step m (Prog.check (sameBytes n (responseData buf (8 * n)) data) (.error msg)) Q
      (ChipError turns) := by
  have hcheck := verified_iff n buf data
  exact From.check (fun h => hsame (hcheck.mp h)) fun h =>
    Or.inr (hother fun heq => h (hcheck.mpr heq))

/-! ### The configuration data -/

/-- The bits of a row. -/
def rowBits (config : Jed.Mem) (row : Nat) : List Bool := drBits (rowData config row) 128

/-- `k` rows are programmed. -/
structure Programmed (config : Jed.Mem) (k : Nat) (m : Chip) : Prop where
  faulty : m.faulty = false
  mode : m.mode = some flashMode
  address : m.address = k
  rows : ∀ j, m.rows j = if j < k then some (rowBits config j) else none

/-- All are, and `k` of them were read back. -/
structure Verified (config : Jed.Mem) (n k : Nat) (m : Chip) : Prop where
  faulty : m.faulty = false
  mode : m.mode = some flashMode
  ir : m.ir = cmdLscReadIncrNv
  address : m.address = k
  rows : ∀ j, m.rows j = if j < n then some (rowBits config j) else none
  seen : ∀ j < k, m.seen j = some (rowBits config j)

/-- A row is written, in the mode for it. -/
theorem operand_progIncrNv {m : Chip} (h : m.mode = some flashMode) (bits : List Bool) :
    (m.loadIr cmdLscProgIncrNv).operand bits =
      { m.loadIr cmdLscProgIncrNv with
        rows := Function.update m.rows m.address (some bits)
        seen := Function.update m.seen m.address none
        address := m.address + 1 } := by
  obtain ⟨ir, mode, address, rows, seen, feature, seenFeature, feabits, seenFeabits, busy,
    synced, faulty⟩ := m
  cases h
  rfl

theorem programRow_spec (turns : Nat) (config : Jed.Mem) (k : Nat) :
    Triple Chip.step (Programmed config k) (programRow turns config k)
      (fun _ => Programmed config (k + 1)) (ChipError turns) := by
  refine Triple.of_from fun m h => ?_
  refine writeIr_then (writeDr_then (runClocks_then ?_))
  refine (pollBusyFlag_from turns _).post fun _ b hb => ?_
  have hoperand := operand_progIncrNv h.mode (rowBits config k)
  have hrows : b.rows = Function.update m.rows m.address (some (rowBits config k)) := by
    rw [hb]
    exact congrArg Chip.rows hoperand
  have hmode : b.mode = some flashMode := by
    rw [hb]
    exact (congrArg Chip.mode hoperand).trans h.mode
  have haddress : b.address = m.address + 1 := by
    rw [hb]
    exact congrArg Chip.address hoperand
  have hfaulty : b.faulty = false := by
    rw [hb]
    exact (congrArg Chip.faulty hoperand).trans h.faulty
  refine ⟨hfaulty, hmode, by rw [haddress, h.address], fun j => ?_⟩
  rw [hrows, h.address]
  by_cases hj : j = k
  · rw [hj, Function.update_self, if_pos (Nat.lt_succ_self k)]
  · rw [Function.update_of_ne hj, h.rows]
    exact if_congr (by omega) rfl rfl

theorem verifyRow_spec (turns : Nat) (config : Jed.Mem) {n k : Nat} (hk : k < n) :
    Triple Chip.step (Verified config n k) (verifyRow config k)
      (fun _ => Verified config n (k + 1)) (ChipError turns) := by
  refine Triple.of_from fun m h => ?_
  refine readDr_then fun buf => runClocks_then ?_
  have hheard : m.hear buf 128 =
      { m with
        seen := Function.update m.seen m.address (some (tdoBits buf 128))
        address := m.address + 1
        faulty := m.faulty || (m.rows m.address).any (· != tdoBits buf 128)
        busy := 0
        synced := false } := by
    have hir : ¬ (m.ir = cmdLscCheckBusy ∧ busyAnswer buf = true) := by
      rw [h.ir]
      exact fun hb => absurd hb.1 (by decide)
    rw [Chip.hear, Chip.answer, if_pos h.ir, if_neg hir]
  rw [hheard, h.address, h.rows k, if_pos hk]
  refine readback_from 16 buf (rowData config k) (fun hsame => ?_) fun hother => ?_
  · have hbits : rowBits config k = tdoBits buf 128 := hsame
    refine ⟨?_, h.mode, h.ir, rfl, h.rows, fun j hj => ?_⟩
    · show (m.faulty || (rowBits config k != tdoBits buf 128)) = false
      rw [h.faulty, hbits, bne_self_eq_false, Bool.false_or]
    · show Function.update m.seen k _ j = _
      by_cases hjk : j = k
      · rw [hjk, Function.update_self, hbits]
      · rw [Function.update_of_ne hjk, h.seen j (by omega)]
  · have hbits : rowBits config k ≠ tdoBits buf 128 := hother
    show (m.faulty || (rowBits config k != tdoBits buf 128)) = true
    rw [bne_iff_ne.mpr hbits, Bool.or_true]

theorem programConfig_spec (turns : Nat) (p : Jed.Parsed) :
    Triple Chip.step (fun m => m.faulty = false ∧ m.mode = some flashMode ∧ m.rows = fun _ => none)
      (programConfig turns p)
      (fun _ => Verified p.config (p.bitCount / Jed.flashRowSize) (p.bitCount / Jed.flashRowSize))
      (ChipError turns) := by
  refine Triple.of_from fun m h => ?_
  refine writeIr_then (runClocks_then (From.bind ?_))
  have hprogram := Triple.upTo (n := p.bitCount / Jed.flashRowSize)
    (I := fun k => Programmed p.config k) fun k _ => programRow_spec turns p.config k
  have hstart : Programmed p.config 0 { m.loadIr cmdLscInitAddress with synced := false } := by
    refine ⟨h.1, h.2.1, rfl, fun j => ?_⟩
    rw [if_neg (Nat.not_lt_zero j)]
    exact congrFun h.2.2 j
  refine (hprogram.to_from hstart).post fun _ b hb => ?_
  refine writeIr_then (runClocks_then (writeIr_then (runClocks_then ?_)))
  have hverify := Triple.upTo (n := p.bitCount / Jed.flashRowSize)
    (I := fun k => Verified p.config (p.bitCount / Jed.flashRowSize) k)
    fun k hk => verifyRow_spec turns p.config hk
  exact hverify.to_from
    ⟨hb.faulty, hb.mode, rfl, rfl, hb.rows, fun j hj => absurd hj (Nat.not_lt_zero j)⟩

/-! ### The feature row -/

/-- What the feature row and its bits say. -/
def featureBits (row : Jed.Row) : List Bool := drBits (leBytes row.feature.toNat) 64

def feabitsBits (row : Jed.Row) : List Bool := drBits (leBytes row.feabits.toNat) 16

theorem programFeature_from (turns : Nat) (row : Jed.Row) {m : Chip}
    (h : m.mode = some flashMode) :
    From Chip.step m (programFeature turns row)
      (fun _ b => b = { m with
        ir := cmdLscReadFeature, address := 0, busy := 0, synced := false
        feature := some (featureBits row), seenFeature := some (featureBits row) })
      (ChipError turns) := by
  refine writeIr_then (runClocks_then (writeIr_then (writeDr_then (runClocks_then (From.bind ?_)))))
  refine (pollBusyFlag_from turns _).post fun _ b hb => ?_
  have hwritten : b = { m with
      ir := cmdLscReadStatus, address := 0, busy := 0, synced := false
      feature := some (featureBits row), seenFeature := none } := by
    rw [hb]
    obtain ⟨ir, mode, address, rows, seen, feature, seenFeature, feabits, seenFeabits, busy,
    synced, faulty⟩ := m
    cases h
    rfl
  rw [hwritten]
  refine writeIr_then (readDr_then fun buf => runClocks_then ?_)
  refine readback_from 8 buf (leBytes row.feature.toNat) (fun hsame => ?_) fun hother => ?_
  · have hbits : featureBits row = tdoBits buf 64 := hsame
    show ({ m with
      ir := cmdLscReadFeature, address := 0, busy := 0, synced := false
      feature := some (featureBits row), seenFeature := some (tdoBits buf 64)
      faulty := m.faulty || (featureBits row != tdoBits buf 64) } : Chip) = _
    rw [← hbits, bne_self_eq_false, Bool.or_false]
  · have hbits : featureBits row ≠ tdoBits buf 64 := hother
    show (m.faulty || (featureBits row != tdoBits buf 64)) = true
    rw [bne_iff_ne.mpr hbits, Bool.or_true]

theorem programFeabits_from (turns : Nat) (row : Jed.Row) {m : Chip}
    (h : m.mode = some flashMode) :
    From Chip.step m (programFeabits turns row)
      (fun _ b => b = { m with
        ir := cmdLscReadFeabits, busy := 0, synced := false
        feabits := some (feabitsBits row), seenFeabits := some (feabitsBits row) })
      (ChipError turns) := by
  refine writeIr_then (writeDr_then (runClocks_then (From.bind ?_)))
  refine (pollBusyFlag_from turns _).post fun _ b hb => ?_
  have hwritten : b = { m with
      ir := cmdLscReadStatus, busy := 0, synced := false
      feabits := some (feabitsBits row), seenFeabits := none } := by
    rw [hb]
    obtain ⟨ir, mode, address, rows, seen, feature, seenFeature, feabits, seenFeabits, busy,
    synced, faulty⟩ := m
    cases h
    rfl
  rw [hwritten]
  refine writeIr_then (runClocks_then (readDr_then fun buf => ?_))
  refine readback_from 2 buf (leBytes row.feabits.toNat) (fun hsame => ?_) fun hother => ?_
  · have hbits : feabitsBits row = tdoBits buf 16 := hsame
    show ({ m with
      ir := cmdLscReadFeabits, busy := 0, synced := false
      feabits := some (feabitsBits row), seenFeabits := some (tdoBits buf 16)
      faulty := m.faulty || (feabitsBits row != tdoBits buf 16) } : Chip) = _
    rw [← hbits, bne_self_eq_false, Bool.or_false]
  · have hbits : feabitsBits row ≠ tdoBits buf 16 := hother
    show (m.faulty || (feabitsBits row != tdoBits buf 16)) = true
    rw [bne_iff_ne.mpr hbits, Bool.or_true]

theorem exitProgramming_from (turns : Nat) (m : Chip) :
    From Chip.step m (exitProgramming turns)
      (fun _ b => b = { m with ir := cmdIscNoop, mode := none, busy := 0, synced := true })
      (ChipError turns) := by
  refine writeIr_then (runClocks_then (From.bind ?_))
  refine (pollBusyFlag_from turns _).post fun _ b hb => ?_
  rw [hb]
  refine writeIr_then (runClocks_then (writeIr_then (runClocks_then (writeIr_then (runClocks_then
    (writeIr_then (runClocks_then (send_from fun _ => ?_))))))))
  rfl

/-! ### The whole -/

/-- What the file asks for is in the flash, was read back, and nothing
is left to be done. -/
structure Flashed (p : Jed.Parsed) (chip : Chip) : Prop where
  rows : ∀ j, chip.rows j = if j < p.bitCount / Jed.flashRowSize then some (rowBits p.config j) else none
  seen : ∀ j < p.bitCount / Jed.flashRowSize, chip.seen j = some (rowBits p.config j)
  feature : chip.feature = some (featureBits p.row) ∧ chip.seenFeature = some (featureBits p.row)
  feabits : chip.feabits = some (feabitsBits p.row) ∧ chip.seenFeabits = some (feabitsBits p.row)
  mode : chip.mode = none
  synced : chip.synced = true
  faulty : chip.faulty = false

/-- The part behind the parser. -/
theorem program_spec (turns : Nat) (p : Jed.Parsed) :
    Triple Chip.step (fun m => m.faulty = false)
      (do
        fpgaEraseFlash turns
        programConfig turns p
        programFeature turns p.row
        programFeabits turns p.row
        exitProgramming turns)
      (fun _ => Flashed p) (ChipError turns) := by
  refine Triple.of_from fun m hm => ?_
  refine From.bind ((fpgaEraseFlash_from turns m).post fun _ e he => From.bind ?_)
  refine ((programConfig_spec turns p).to_from ?_).post fun _ v hv => From.bind ?_
  · rw [he]
    exact ⟨hm, rfl, rfl⟩
  refine (programFeature_from turns p.row hv.mode).post fun _ f hf => From.bind ?_
  have hmode : f.mode = some flashMode := by rw [hf]; exact hv.mode
  refine (programFeabits_from turns p.row hmode).post fun _ g hg => ?_
  refine (exitProgramming_from turns g).post fun _ b hb => ?_
  rw [hb, hg, hf]
  exact ⟨hv.rows, hv.seen, ⟨rfl, rfl⟩, ⟨rfl, rfl⟩, rfl, rfl, hv.faulty⟩

end Execution

/-! ## The file and the flash -/

/-- A slice, bit by bit. -/
theorem map_getD_eq_slice (bits : List Bool) {k n : Nat} (h : k + n ≤ bits.length) :
    (List.range n).map (fun i => bits.getD (k + i) false) = (bits.drop k).take n := by
  refine List.ext_getElem ?_ fun i hi hi' => ?_
  · rw [List.length_map, List.length_range, List.length_take, List.length_drop]
    omega
  · rw [List.length_map, List.length_range] at hi
    rw [List.getElem_map, List.getElem_range, List.getElem_take, List.getElem_drop,
      List.getD_eq_getElem?_getD, List.getElem?_eq_getElem (by omega), Option.getD_some]

/-- The bits of a number in memory are its bits. -/
theorem drBits_leBytes (v n : Nat) : drBits (leBytes v) n = (List.range n).map v.testBit := by
  refine List.map_congr_left fun i _ => ?_
  have hbyte : (leBytes v (i / 8)).toNat = v >>> (8 * (i / 8)) % 2 ^ 8 := UInt8.toNat_ofNat
  have hlt : i % 8 < 8 := Nat.mod_lt i (by decide)
  have hindex : 8 * (i / 8) + i % 8 = i := Nat.div_add_mod i 8
  rw [hbyte, Nat.testBit_mod_two_pow, decide_eq_true hlt, Bool.true_and, Nat.testBit_shiftRight, hindex]

/-- The flash holds the bits of a file, a row of 128 after another and
nothing behind them, with the feature row, and all of it was read back. -/
structure Holds (text row : List UInt8) (chip : Chip) : Prop where
  rows : ∀ j, chip.rows j =
    if 128 * j < (Jed.bitsOf text).length then
      some (((Jed.bitsOf text).drop (128 * j)).take 128)
    else none
  seen : ∀ j, 128 * j < (Jed.bitsOf text).length → chip.seen j = chip.rows j
  feature : chip.feature = some ((Jed.bitsOf row).take 64) ∧ chip.seenFeature = chip.feature
  feabits : chip.feabits = some ((Jed.bitsOf row).drop 64) ∧ chip.seenFeabits = chip.feabits
  mode : chip.mode = none

theorem Flashed.holds {config : Jed.Mem} {text row : List UInt8} {p : Jed.Parsed} {chip : Chip}
    (hp : Jed.Renders config text row p) (htext : Jed.ConfigSized text) (hrow : Jed.RowSized row)
    (h : Flashed p chip) : Holds text row chip := by
  obtain ⟨⟨n, hn⟩, hfits⟩ := htext
  have hrows : p.bitCount / Jed.flashRowSize = n := by
    rw [hp.bitCount, hn]
    exact Nat.mul_div_cancel_left n (by decide)
  have hlen : (Jed.bitsOf text).length = 128 * n := hn
  have hlen80 : (Jed.bitsOf row).length = 80 := hrow
  have hin : ∀ j, j < n ↔ 128 * j < (Jed.bitsOf text).length := fun j => by omega
  have hbits : ∀ j < n, rowBits p.config j = ((Jed.bitsOf text).drop (128 * j)).take 128 := by
    intro j hj
    rw [← map_getD_eq_slice _ (by omega)]
    refine List.map_congr_left fun i hi => ?_
    have hi' := List.mem_range.mp hi
    have hdiv : (128 * j + i) / 8 = j * 16 + i / 8 := by omega
    have hmod : (128 * j + i) % 8 = i % 8 := by omega
    have hbit := hp.config_bits (128 * j + i) (by omega)
    rw [Jed.configBit, hdiv, hmod] at hbit
    exact hbit
  have hfeature : featureBits p.row = (Jed.bitsOf row).take 64 := by
    have hslice := map_getD_eq_slice (Jed.bitsOf row) (k := 0) (n := 64) (by omega)
    rw [List.drop_zero] at hslice
    rw [featureBits, drBits_leBytes, ← hslice]
    refine List.map_congr_left fun i hi => ?_
    rw [hp.feature_bits i (List.mem_range.mp hi), Nat.zero_add]
  have hfeabits : feabitsBits p.row = (Jed.bitsOf row).drop 64 := by
    have hslice := map_getD_eq_slice (Jed.bitsOf row) (k := 64) (n := 16) (by omega)
    rw [List.take_of_length_le (by rw [List.length_drop]; omega)] at hslice
    rw [feabitsBits, drBits_leBytes, ← hslice]
    exact List.map_congr_left fun i hi => hp.feabits_bits i (List.mem_range.mp hi)
  refine ⟨fun j => ?_, fun j hj => ?_, ?_, ?_, h.mode⟩
  · rw [h.rows, hrows]
    by_cases hj : j < n
    · rw [if_pos hj, if_pos ((hin j).mp hj), hbits j hj]
    · rw [if_neg hj, if_neg (fun hlt => hj ((hin j).mpr hlt))]
  · have hjn : j < p.bitCount / Jed.flashRowSize := by rw [hrows]; exact (hin j).mpr hj
    rw [h.seen j hjn, h.rows j, if_pos hjn]
  · exact ⟨by rw [h.feature.1, hfeature], h.feature.2.trans h.feature.1.symm⟩
  · exact ⟨by rw [h.feabits.1, hfeabits], h.feabits.2.trans h.feabits.1.symm⟩

/-! ## The calls and the port -/

/-- The transactions of a log. -/
def callsOf (log : Log SizedCall (Nat → UInt8)) : List Call := log.map fun e => e.1.1

theorem callsOf_sized (log : Log SizedCall (Nat → UInt8)) : ∀ c ∈ callsOf log, c.Sized := by
  intro c hc
  obtain ⟨e, -, rfl⟩ := List.mem_map.mp hc
  exact e.1.2

/-- A transfer that failed is not forgotten. -/
theorem Chip.of_not_faulty {chip : Chip} {e : SizedCall × Option (Nat → UInt8)}
    (h : (chip.step e).faulty = false) : chip.faulty = false ∧ e.2.isSome = true := by
  obtain ⟨⟨c, hc⟩, r⟩ := e
  cases r with
  | none => cases h
  | some buf =>
      refine ⟨?_, rfl⟩
      cases c with
      | writeIr ir => exact h
      | writeDr data size =>
          have hfaulty : (chip.loadDr (drBits data size)).faulty = chip.faulty := by
            show (chip.operand _).faulty = _
            rw [Chip.operand]
            split_ifs
            all_goals rfl
          exact hfaulty.symm.trans h
      | readDr size =>
          have hanswer : ((chip.answer (tdoBits buf size)).faulty) = false := h
          rw [Chip.answer] at hanswer
          split_ifs at hanswer
          all_goals first | exact hanswer | exact (Bool.or_eq_false_iff.mp hanswer).1
      | run count => exact h
      | sync => exact h

theorem answered_of_not_faulty {log : Log SizedCall (Nat → UInt8)} {chip : Chip}
    (h : (log.foldl Chip.step chip).faulty = false) : ∀ e ∈ log, e.2.isSome = true := by
  induction log using List.reverseRecOn with
  | nil => exact fun e he => absurd he List.not_mem_nil
  | append_singleton log e ih =>
      rw [List.foldl_append] at h
      obtain ⟨hbefore, hlast⟩ := Chip.of_not_faulty h
      intro e' he'
      obtain he' | he' := List.mem_append.mp he'
      · exact ih hbefore e' he'
      · rw [List.mem_singleton.mp he']
        exact hlast

/-- Behind a sync nothing is left in the batch. -/
theorem execAll_sync_buf {s : Batch} (h : s.Good) {calls : List Call} (hc : ∀ c ∈ calls, c.Sized) :
    (execAll s (calls ++ [.sync])).buf = [] := by
  rw [execAll_append]
  exact (sync_spec (execAll_spec h hc).1).2.1

theorem buf_nil_of_synced {log : Log SizedCall (Nat → UInt8)}
    (h : (log.foldl Chip.step .unknown).synced = true) : (execAll .empty (callsOf log)).buf = [] := by
  cases log using List.reverseRecOn with
  | nil => rfl
  | append_singleton log e =>
      rw [List.foldl_append] at h
      obtain ⟨⟨c, hc⟩, r⟩ := e
      cases r with
      | none => cases h
      | some buf =>
          cases c with
          | writeIr ir => cases h
          | writeDr data size => cases h
          | readDr size => cases h
          | run count => cases h
          | sync =>
              rw [callsOf, List.map_append]
              exact execAll_sync_buf good_empty (callsOf_sized log)

/-- Every transaction was made: the requests carry their symbols, and the
port has updated its registers accordingly. -/
structure Clocked (log : Log SizedCall (Nat → UInt8)) : Prop where
  answered : ∀ e ∈ log, e.2.isSome = true
  syms : clocked (execAll .empty (callsOf log)).calls = (callsOf log).flatMap Call.syms
  port : ∀ shifted updates, ∃ shifted',
    Lib.Tap.run ⟨.runTestIdle, shifted, updates⟩ (clocked (execAll .empty (callsOf log)).calls) =
      ⟨.runTestIdle, shifted', updates ++ (callsOf log).flatMap Call.updates⟩

theorem clocked_of_synced {log : Log SizedCall (Nat → UInt8)}
    (hfaulty : (log.foldl Chip.step .unknown).faulty = false)
    (hsynced : (log.foldl Chip.step .unknown).synced = true) : Clocked log := by
  have hspec := (execAll_spec good_empty (callsOf_sized log)).2.1
  have hsyms : clocked (execAll .empty (callsOf log)).calls = (callsOf log).flatMap Call.syms := by
    rw [clocked_of_buf_nil (buf_nil_of_synced hsynced), hspec]
    rfl
  refine ⟨answered_of_not_faulty hfaulty, hsyms, fun shifted updates => ?_⟩
  rw [hsyms]
  exact run_calls (callsOf_sized log) shifted updates

/-- What an accepted file says. -/
theorem fields_of_parsed {data : List UInt8} {config : Jed.Mem} {p : Jed.Parsed}
    (h : Jed.parseJedFile data config = .ok p) :
    ∃ text row, Jed.Field data Jed.startText text ∧ Jed.Field data Jed.frText row ∧
      Jed.ConfigSized text ∧ Jed.RowSized row ∧ Jed.Renders config text row p := by
  have hvalid : Jed.bitstreamValid data data.length = true := by
    cases hvalid : Jed.bitstreamValid data data.length with
    | true => rfl
    | false =>
        rw [Jed.parseJedFile, if_pos hvalid] at h
        cases h
  by_cases hgood : ∃ text row, Jed.Field data Jed.startText text ∧ Jed.Field data Jed.frText row ∧
      Jed.ConfigSized text ∧ Jed.RowSized row
  · obtain ⟨text, row, htext, hrow, hsized, hrsized⟩ := hgood
    rw [Jed.parseJedFile_of_fields hvalid htext hrow hsized hrsized] at h
    cases h
    exact ⟨text, row, htext, hrow, hsized, hrsized, Jed.renders hsized hrsized config⟩
  · obtain ⟨msg, herror⟩ := Jed.parseJedFile_of_no_fields hgood config
    rw [herror] at h
    cases h

/-- **Programming is verified.** Against every device, a run on a file
that ends well has both fields in the file, has left exactly their bits
in the flash and has read all of them back, out of programming mode and
with every transaction clocked to the port. A file that is not accepted
is refused with the parser's error and nothing is sent. Any other end has
its reason in what the device did: as many polls in a row as were granted
found it busy, a transfer failed, or an answer was bad. -/
theorem fpgaProgramFlash_verified (turns : Nat) (data : List UInt8) (config : Jed.Mem)
    (peer : Peer SizedCall (Nat → UInt8)) :
    let r := (fpgaProgramFlash turns data config).run peer
    let chip := r.2.foldl Chip.step .unknown
    (∀ s, Jed.parseJedFile data config = .error s → r = (.error (.jed s), [])) ∧
      (r.1 = .ok () → ∃ text row, Jed.Field data Jed.startText text ∧ Jed.Field data Jed.frText row ∧
        Holds text row chip ∧ Clocked r.2) ∧
      ∀ p e, Jed.parseJedFile data config = .ok p → r.1 = .error e → ChipError turns e chip := by
  intro r chip
  cases hparse : Jed.parseJedFile data config with
  | error s =>
      have hrun : r = (.error (.jed s), []) := by
        show (fpgaProgramFlash turns data config).run peer = _
        rw [fpgaProgramFlash, hparse]
        rfl
      refine ⟨fun s' h => ?_, fun h => ?_, fun p e h => ?_⟩
      · rw [hrun, Except.error.inj h]
      · rw [hrun] at h
        cases h
      · cases h
  | ok p =>
      have hspec : Triple Chip.step (fun m => m.faulty = false) (fpgaProgramFlash turns data config)
          (fun _ => Flashed p) (ChipError turns) := by
        rw [fpgaProgramFlash, hparse]
        exact program_spec turns p
      obtain ⟨hok, herror⟩ := hspec.run peer (a := Chip.unknown) rfl
      refine ⟨fun s h => ?_, fun h => ?_, fun p' e _ he => herror e he⟩
      · cases h
      have hflashed : Flashed p chip := hok () h
      obtain ⟨text, row, htext, hrow, hsized, hrsized, hrenders⟩ := fields_of_parsed hparse
      exact ⟨text, row, htext, hrow, hflashed.holds hrenders hsized hrsized,
        clocked_of_synced hflashed.faulty hflashed.synced⟩

/-- What a working chip puts out: the cells as they were written, a good
status, and busy at the first poll of a series only. -/
def Chip.output (chip : Chip) : List Bool :=
  if chip.ir = cmdLscCheckBusy then [decide (chip.busy = 0)]
  else if chip.ir = cmdLscReadIncrNv then (chip.rows chip.address).getD []
  else if chip.ir = cmdLscReadFeature then chip.feature.getD []
  else if chip.ir = cmdLscReadFeabits then chip.feabits.getD []
  else []

/-- Four bits, in a byte. -/
def nibbleOf (bits : List Bool) : UInt8 := bits.foldr (fun b x => 2 * x + if b then 1 else 0) 0

def workingFpga : Peer SizedCall (Nat → UInt8) := fun log _ =>
  some fun i => nibbleOf (((log.foldl Chip.step .unknown).output.drop (4 * i)).take 4)

theorem fpgaProgramFlash_verified_oneRowFile :
    let r := (fpgaProgramFlash 2 Jed.oneRowFile fun _ => 0xFF).run workingFpga
    r.1 = .ok () ∧ ∃ text row, Jed.Field Jed.oneRowFile Jed.startText text ∧
      Jed.Field Jed.oneRowFile Jed.frText row ∧ Holds text row (r.2.foldl Chip.step .unknown) ∧
      Clocked r.2 := by
  have hok : ((fpgaProgramFlash 2 Jed.oneRowFile fun _ => 0xFF).run workingFpga).1 = .ok () := by
    decide +kernel
  exact ⟨hok, (fpgaProgramFlash_verified 2 Jed.oneRowFile _ workingFpga).2.1 hok⟩

/-! ## The SRAM -/

def cmdLscBitstreamBurst : UInt32 := 0x7a

/-- The inner loop of `fpga_program_sram`, for byte `i` of `size`: from
the highest bit, with the mode bit at the very end. -/
def burstByte (size : Nat) (data : List UInt8) (s : Batch) (i : Nat) : Batch :=
  [7, 6, 5, 4, 3, 2, 1, 0].foldl
    (fun s j => jtagClk s ((data.getD i 0 >>> UInt8.ofNat j) &&& 1)
      (if i = size - 1 ∧ j = 0 then 1 else 0)) s

/-- The scan of `fpga_program_sram`. -/
def burst (s : Batch) (data : List UInt8) : Batch :=
  let s := jtagClk s 0 1
  let s := jtagClk s 0 0
  let s := jtagClk s 0 0
  let s := (List.range data.length).foldl (burstByte data.length data) s
  let s := jtagClk s 0 1
  jtagClk s 0 0

/-- The transactions in front of the scan and behind it. -/
def sramCallsBefore : List Call :=
  [.writeIr cmdIscEnable, .writeDr (single iscEnableSram) 8, .run 8,
    .writeIr cmdIscErase, .writeDr (single iscEraseSram) 8, .run 8,
    .writeIr cmdLscBitstreamBurst, .run 8]

def sramCallsAfter : List Call :=
  [.run 100, .writeIr cmdIscDisable, .run 8, .writeIr cmdIscNoop, .run 100, .sync]

/-- `fpga_program_sram`. -/
def fpgaProgramSram (s : Batch) (data : List UInt8) : Except String Batch :=
  if Jed.bitstreamValid data data.length = false then
    .error "malformed BIT file: device signature not found"
  else .ok (execAll (burst (execAll s sramCallsBefore) data) sramCallsAfter)

/-- The bits of a byte, the highest first. -/
def highFirst (b : UInt8) : List Bool := [7, 6, 5, 4, 3, 2, 1, 0].map b.toNat.testBit

theorem highFirst_ne_nil (b : UInt8) : highFirst b ≠ [] := List.cons_ne_nil _ _

/-- A byte that is not the last one. -/
theorem burstByte_inner {size i : Nat} (hi : i ≠ size - 1) (data : List UInt8) (s : Batch) :
    burstByte size data s i = clks s ((highFirst (data.getD i 0)).map (⟨·, false⟩)) := by
  rw [burstByte, highFirst, List.map_map, clks, List.foldl_map]
  refine List.foldl_ext _ _ _ fun s j hj => ?_
  have hj8 : j < 8 := by
    simp only [List.mem_cons, List.not_mem_nil, or_false] at hj
    omega
  rw [drBit_eq _ hj8, if_neg fun h => hi h.1]
  rfl

theorem burstByte_last (size : Nat) (data : List UInt8) (s : Batch) :
    burstByte size data s (size - 1) = clks s (shiftSyms (highFirst (data.getD (size - 1) 0))) := by
  have hsplit : [7, 6, 5, 4, 3, 2, 1, 0] = [7, 6, 5, 4, 3, 2, 1] ++ [0] := rfl
  rw [burstByte, highFirst, hsplit, List.foldl_append, List.map_append, List.map_singleton,
    shiftSyms_concat, clks_append, List.map_map, clks, clks, List.foldl_map]
  have hfront : ∀ t, [7, 6, 5, 4, 3, 2, 1].foldl
      (fun s j => jtagClk s ((data.getD (size - 1) 0 >>> UInt8.ofNat j) &&& 1)
        (if size - 1 = size - 1 ∧ j = 0 then 1 else 0)) t =
      [7, 6, 5, 4, 3, 2, 1].foldl
        (fun s j => clk s ⟨(data.getD (size - 1) 0).toNat.testBit j, false⟩) t := by
    intro t
    refine List.foldl_ext _ _ _ fun s j hj => ?_
    simp only [List.mem_cons, List.not_mem_nil, or_false] at hj
    rw [drBit_eq _ (by omega), if_neg (by omega)]
    rfl
  rw [hfront]
  simp only [List.foldl_cons, List.foldl_nil, drBit_eq _ (show 0 < 8 by decide), and_self, if_true]
  rfl

/-- Bits in front of a scan's last ones. -/
theorem shiftSyms_append (xs : List Bool) {ys : List Bool} (hys : ys ≠ []) :
    shiftSyms (xs ++ ys) = xs.map (⟨·, false⟩) ++ shiftSyms ys := by
  induction xs with
  | nil => rfl
  | cons x xs ih =>
      rw [List.cons_append, shiftSyms_cons (List.append_ne_nil_of_right_ne_nil xs hys), ih]
      rfl

/-- **The scan carries the file**, each byte from its highest bit. -/
theorem burst_eq (s : Batch) {data : List UInt8} (hpos : data ≠ []) :
    burst s data = clks s (drScan (data.flatMap highFirst)) := by
  -- the loop up to the last byte
  have hinner : ∀ k < data.length, ∀ t, (List.range k).foldl (burstByte data.length data) t =
      clks t (((data.take k).flatMap highFirst).map (⟨·, false⟩)) := by
    intro k hk t
    induction k with
    | zero => rfl
    | succ k ih =>
        rw [List.range_succ, List.foldl_append, ih (by omega), List.foldl_cons, List.foldl_nil,
          burstByte_inner (by omega), ← clks_append, ← List.map_append, List.take_add_one,
          List.flatMap_append, List.getD_eq_getElem?_getD, List.getElem?_eq_getElem (by omega)]
        simp
  have hlen : data.length - 1 + 1 = data.length := by
    have := List.length_pos_iff.mpr hpos
    omega
  have hlast : data.take (data.length - 1) ++ [data.getD (data.length - 1) 0] = data := by
    rw [List.getD_eq_getElem?_getD, List.getElem?_eq_getElem (by omega), Option.getD_some,
      List.take_append_getElem, hlen, List.take_length]
  have hloop : ∀ t, (List.range data.length).foldl (burstByte data.length data) t =
      clks t (shiftSyms (data.flatMap highFirst)) := by
    intro t
    rw [← hlen, List.range_succ, List.foldl_append, List.foldl_cons, List.foldl_nil, hlen,
      hinner _ (by omega), burstByte_last, ← clks_append,
      ← shiftSyms_append _ (highFirst_ne_nil _)]
    conv_rhs => rw [← hlast, List.flatMap_append, List.flatMap_singleton]
  rw [drScan, clks_append, clks_append, ← hloop]
  simp only [burst, jtagClk_mode, jtagClk_idle, clks_cons, clks_nil]

/-- The updates of the registers around the scan. -/
def sramUpdates (data : List UInt8) : List Update :=
  [.ir (irBits cmdIscEnable), .dr (drBits (single iscEnableSram) 8),
    .ir (irBits cmdIscErase), .dr (drBits (single iscEraseSram) 8),
    .ir (irBits cmdLscBitstreamBurst), .dr (data.flatMap highFirst),
    .ir (irBits cmdIscDisable), .ir (irBits cmdIscNoop)]

theorem sramCalls_sized : (∀ c ∈ sramCallsBefore, c.Sized) ∧ ∀ c ∈ sramCallsAfter, c.Sized := by
  refine ⟨fun c hc => ?_, fun c hc => ?_⟩
  · simp only [sramCallsBefore, List.mem_cons, List.not_mem_nil, or_false] at hc
    obtain rfl | rfl | rfl | rfl | rfl | rfl | rfl | rfl := hc
    all_goals first | exact trivial | exact (by decide : 1 ≤ 8)
  · simp only [sramCallsAfter, List.mem_cons, List.not_mem_nil, or_false] at hc
    obtain rfl | rfl | rfl | rfl | rfl | rfl := hc
    all_goals exact trivial

/-- **The SRAM is loaded in one scan.** A file is accepted by its
signature; then the whole of it is one scan of the data register behind
the burst command, the highest bit of each byte first, however the
batches fall into it, with nothing left in the batch and no assertion
failed. -/
theorem fpgaProgramSram_port (data : List UInt8) :
    ((∃ s, fpgaProgramSram .empty data = .ok s) ↔
        1024 ≤ data.length ∧ Jed.bitstreamSignature <:+: data.take 1024) ∧
      ∀ s, fpgaProgramSram .empty data = .ok s →
        s.buf = [] ∧ (∀ c ∈ s.calls, c ≠ .assertFailed) ∧ ∀ shifted updates, ∃ shifted',
          Lib.Tap.run ⟨.runTestIdle, shifted, updates⟩ (clocked s.calls) =
            ⟨.runTestIdle, shifted', updates ++ sramUpdates data⟩ := by
  rw [← Jed.bitstreamValid_iff]
  cases hvalid : Jed.bitstreamValid data data.length with
  | false =>
      have hrun : ∃ msg, fpgaProgramSram .empty data = .error msg := ⟨_, if_pos hvalid⟩
      obtain ⟨msg, hrun⟩ := hrun
      refine ⟨⟨fun ⟨s, hs⟩ => ?_, fun h => (by cases h)⟩, fun s hs => ?_⟩
      · rw [hrun] at hs
        cases hs
      · rw [hrun] at hs
        cases hs
  | true =>
      have hrun : fpgaProgramSram .empty data =
          .ok (execAll (burst (execAll .empty sramCallsBefore) data) sramCallsAfter) :=
        if_neg (by rw [hvalid]; decide)
      refine ⟨⟨fun _ => rfl, fun _ => ⟨_, hrun⟩⟩, fun s hs => ?_⟩
      obtain rfl := Except.ok.inj (hrun.symm.trans hs)
      have hlen := ((Jed.bitstreamValid_iff data).mp hvalid).1
      have hpos : data ≠ [] := List.ne_nil_of_length_pos (by omega)
      rw [burst_eq _ hpos]
      obtain ⟨hgood, hsyms, -⟩ := execAll_spec good_empty sramCalls_sized.1
      obtain ⟨hgood', hsyms'⟩ := clks_spec hgood (drScan (data.flatMap highFirst))
      obtain ⟨hgood'', hsyms'', -⟩ := execAll_spec hgood' sramCalls_sized.2
      have hbuf : (execAll (clks (execAll .empty sramCallsBefore) (drScan (data.flatMap highFirst)))
          sramCallsAfter).buf = [] := by
        have hfront : ∀ c ∈ sramCallsAfter.dropLast, c.Sized :=
          fun c hc => sramCalls_sized.2 c (List.mem_of_mem_dropLast hc)
        have hsplit : sramCallsAfter = sramCallsAfter.dropLast ++ [.sync] := rfl
        rw [hsplit]
        exact execAll_sync_buf hgood' hfront
      refine ⟨hbuf, hgood''.calls, fun shifted updates => ?_⟩
      have hbits : data.flatMap highFirst ≠ [] := by
        obtain ⟨b, rest, rfl⟩ := List.exists_cons_of_ne_nil hpos
        exact List.cons_ne_nil _ _
      obtain ⟨mid, hbefore⟩ := run_calls sramCalls_sized.1 shifted updates
      obtain ⟨last, hafter⟩ := run_calls sramCalls_sized.2 (data.flatMap highFirst)
        (updates ++ sramCallsBefore.flatMap Call.updates ++ [.dr (data.flatMap highFirst)])
      refine ⟨last, ?_⟩
      rw [clocked_of_buf_nil hbuf, hsyms'', hsyms', hsyms, run_append, run_append]
      show Lib.Tap.run (Lib.Tap.run (Lib.Tap.run _ (sramCallsBefore.flatMap Call.syms)) _) _ = _
      rw [hbefore, run_drScan hbits, hafter, List.append_assoc, List.append_assoc]
      rfl

end UsbSniffer.Gen1.Flash
