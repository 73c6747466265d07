import UsbSniffer.Lib.Dialogue
import UsbSniffer.Gen1.Jed

/-!
# Firmware for the microcontroller

`gen1/fx2lp.c` and the control transfers of `gen1/usb.c` it is made of,
with `maint_mcu_eeprom` of `main.c` on top. An image goes into the RAM in
pieces of one control transfer each, or with a boot header and a footer
into the EEPROM in half pages; every piece is read back and compared.

What the transfers ask for is kept as `Ram` and `Eeprom`: what was last
written to a cell, and what was read back from it since. So a program
that ends well has been read back as a whole (`fx2lpSramUpload_verified`,
`maintMcuEeprom_verified`), whatever the device is. The microcontroller
is never let loose on a RAM that was not.

An IN transfer that succeeds is taken to fill its buffer. The code asks
for an error only, not for how much came.
-/

namespace UsbSniffer.Gen1.Fx2lp

open Lib.Dialogue

/-! ## Control transfers -/

/-- `USB_EP0_SIZE`. -/
def usbEp0Size : Nat := 64

/-- `CPUCS_ADDR`. -/
def cpucsAddr : Nat := 0xe600

/-- `CMD_FX2LP_REQUEST`, `CMD_I2C_READ` and `CMD_I2C_WRITE`. -/
def cmdFx2lpRequest : Nat := 0xa0

def cmdI2cRead : Nat := 0xb0

def cmdI2cWrite : Nat := 0xb1

/-- A vendor request: its code, `wValue`, and the data or its size. -/
inductive Ctrl where
  | out (request value : Nat) (data : List UInt8)
  | inp (request value size : Nat)
deriving Repr, DecidableEq

/-- What the program ends with: the text of `usb_check_error` or of its
own check. -/
inductive Stop where
  | usb (text : String)
  | error (msg : String)
deriving Repr, DecidableEq

/-- An IN transfer is answered by the bytes of its buffer, all of them. -/
abbrev Usb (α : Type) := Prog Ctrl (Nat → UInt8) Stop α

/-- An OUT transfer. -/
def send (c : Ctrl) (text : String) : Usb Unit := do
  let _ ← Prog.call c (.usb text)

/-- `usb_fx2lp_reset`. -/
def usbFx2lpReset (reset : Bool) : Usb Unit :=
  send (.out cmdFx2lpRequest cpucsAddr [if reset then 1 else 0]) "usb_fx2lp_reset()"

/-- `usb_fx2lp_sram_read`. -/
def usbFx2lpSramRead (addr size : Nat) : Usb (Nat → UInt8) :=
  Prog.call (.inp cmdFx2lpRequest addr size) (.usb "usb_fx2lp_sram_read()")

/-- `usb_fx2lp_sram_write`. -/
def usbFx2lpSramWrite (addr : Nat) (data : List UInt8) : Usb Unit :=
  send (.out cmdFx2lpRequest addr data) "usb_fx2lp_sram_write()"

/-- `usb_i2c_read`. -/
def usbI2cRead (addr size : Nat) : Usb (Nat → UInt8) :=
  Prog.call (.inp cmdI2cRead (addr ||| 1) size) (.usb "usb_i2c_read()")

/-- `usb_i2c_write`. -/
def usbI2cWrite (addr : Nat) (data : List UInt8) : Usb Unit :=
  send (.out cmdI2cWrite addr data) "usb_i2c_write()"

/-! ## Uploads -/

/-- `FX2LP_SIZE`. -/
def fx2lpSize : Nat := 16384

/-- What a turn of the loop of `fx2lp_sram_upload` does with its piece. -/
def sramPiece (addr : Nat) (piece : List UInt8) : Usb Unit := do
  usbFx2lpSramWrite addr piece
  let buf ← usbFx2lpSramRead addr piece.length
  Prog.check (piece = (List.range piece.length).map buf)
    (.error "fx2lp_sram_upload(): verification failed")

/-- `sz`, for what is left. -/
def pieceSize (size : Nat) : Nat := if size < usbEp0Size then size else usbEp0Size

theorem pieceSize_le {size : Nat} (h : size ≠ 0) : 0 < pieceSize size ∧ pieceSize size ≤ size := by
  rw [pieceSize, usbEp0Size]
  split <;> omega

/-- The loop of `fx2lp_sram_upload`, from `addr` on. -/
def sramLoop (addr : Nat) (data : List UInt8) : Usb Unit :=
  if _h : data.length = 0 then pure ()
  else do
    sramPiece addr (data.take (pieceSize data.length))
    sramLoop (addr + pieceSize data.length) (data.drop (pieceSize data.length))
termination_by data.length
decreasing_by
  have hsz := pieceSize_le _h
  rw [List.length_drop]
  omega

/-- `fx2lp_sram_upload`. -/
def fx2lpSramUpload (data : List UInt8) : Usb Unit := do
  Prog.check (data.length ≤ fx2lpSize) (.error "fx2lp_sram_upload(): file is too big")
  usbFx2lpReset true
  sramLoop 0 data
  usbFx2lpReset false

/-- `EEPROM_ADDR`. -/
def eepromAddr : Nat := 0xa2

/-- `EEPROM_PAGE_SIZE`. -/
def eepromPageSize : Nat := 32

/-- `FX2LP_HEADER` and `FX2LP_FOOTER`. -/
def fx2lpHeader : Nat := 12

def fx2lpFooter : Nat := 5

/-- `eeprom_request_valid`. -/
def eepromRequestValid (addr size : Nat) : Prop :=
  addr < fx2lpSize ∧ addr % eepromPageSize = 0 ∧ size ≤ eepromPageSize

instance (addr size : Nat) : Decidable (eepromRequestValid addr size) :=
  inferInstanceAs (Decidable (_ ∧ _))

/-- The two address bytes in front of a request. -/
def addressBytes (addr : Nat) : List UInt8 := [UInt8.ofNat (addr >>> 8), UInt8.ofNat addr]

/-- `fx2lp_eeprom_read`. -/
def fx2lpEepromRead (addr size : Nat) : Usb (Nat → UInt8) := do
  Prog.check (eepromRequestValid addr size) (.error "fx2lp_eeprom_read(): invalid request")
  usbI2cWrite eepromAddr (addressBytes addr)
  usbI2cRead eepromAddr size

/-- `fx2lp_eeprom_write`. -/
def fx2lpEepromWrite (addr : Nat) (data : List UInt8) : Usb Unit := do
  Prog.check (eepromRequestValid addr data.length) (.error "fx2lp_eeprom_write(): invalid request")
  usbI2cWrite eepromAddr (addressBytes addr ++ data)

/-- `memcpy` into a buffer. -/
def memcpy (buf : Nat → UInt8) (at_ : Nat) (data : List UInt8) : Nat → UInt8 :=
  fun i => if at_ ≤ i ∧ i < at_ + data.length then data.getD (i - at_) 0 else buf i

/-- The buffer of `fx2lp_eeprom_upload`, store by store. -/
def eepromBuf (data : List UInt8) : Nat → UInt8 :=
  let dataSize := data.length
  let buf : Nat → UInt8 := fun _ => 0xff
  let buf := memcpy buf 0 [0xc2]
  let buf := memcpy buf 7 [1, UInt8.ofNat (dataSize >>> 8), UInt8.ofNat dataSize, 0, 0]
  let buf := memcpy buf fx2lpHeader data
  memcpy buf (fx2lpHeader + dataSize) [0x80, 0x01, 0xe6, 0x00, 0x00]

/-- `size`, rounded up to whole pages. -/
def eepromSize (dataSize : Nat) : Nat :=
  (fx2lpHeader + dataSize + fx2lpFooter + (eepromPageSize - 1)) / eepromPageSize * eepromPageSize

/-- One turn of the loop of `fx2lp_eeprom_upload`. -/
def eepromPage (buf : Nat → UInt8) (addr : Nat) : Usb Unit := do
  fx2lpEepromWrite addr ((List.range eepromPageSize).map fun i => buf (addr + i))
  let tmp ← fx2lpEepromRead addr eepromPageSize
  Prog.check (∀ i < eepromPageSize, buf (addr + i) = tmp i)
    (.error "fx2lp_eeprom_upload(): verification failed")

/-- `fx2lp_eeprom_upload`. -/
def fx2lpEepromUpload (data : List UInt8) : Usb Unit := do
  let size := eepromSize data.length
  Prog.check (size ≤ fx2lpSize) (.error "fx2lp_eeprom_upload(): file is too big")
  Prog.upTo (size / eepromPageSize) fun k => eepromPage (eepromBuf data) (k * eepromPageSize)

/-- `"[-----SN-----]"`. -/
def snPlaceholder : List UInt8 := Jed.bytesOf "[-----SN-----]".toList

/-- `"%014x"`. -/
def serialText (traceid : Nat) : List UInt8 :=
  (List.range 14).map fun i =>
    UInt8.ofNat (Nat.digitChar (traceid / 16 ^ (13 - i) % 16)).toNat

/-- `sprintf` into the file: the text and its NUL. The buffer is longer
than the file. -/
def patchSerial (data : List UInt8) (sn traceid : Nat) : List UInt8 :=
  (data.take sn ++ serialText traceid ++ [0] ++ data.drop (sn + 15)).take data.length

/-- The trace id `fpga_read_traceid` returns, with the mask of
`maint_mcu_eeprom`. -/
def maintTraceid : Nat := 0x20250616 &&& 0x00ffffffffffffff

/-- `maint_mcu_eeprom`, on the bytes of the file. -/
def maintMcuEeprom (data : List UInt8) : Usb Unit := do
  match Jed.findStr data data.length snPlaceholder with
  | none =>
      Prog.stop (.error "provided binary does not include a placeholder for the serial number")
  | some sn => fx2lpEepromUpload (patchSerial data sn maintTraceid)

/-! ## What the transfers ask for -/

/-- The answer to a read agrees with what is known of the cells. -/
def agrees (mem : Nat → Option UInt8) (addr size : Nat) (buf : Nat → UInt8) : Bool :=
  (List.range size).all fun k => (mem (addr + k)).all (· == buf k)

/-- The RAM of the microcontroller. A cell of `mem` holds what was last
written to it, a cell of `seen` what was read back since. `loose` says
that a program byte was written while the processor was not held,
`faulty` that a transfer failed or gave something else than was
written. -/
structure Ram where
  mem : Nat → Option UInt8
  seen : Nat → Option UInt8
  loose : Bool
  faulty : Bool

/-- The processor is held in reset. -/
def Ram.Held (m : Ram) : Prop := m.mem cpucsAddr = some 1

instance (m : Ram) : Decidable m.Held := inferInstanceAs (Decidable (_ = _))

/-- A write whose transfer failed leaves it open what stands there. -/
def Ram.write (m : Ram) (addr : Nat) (data : List UInt8) (done : Bool) : Ram where
  mem := fun i =>
    if addr ≤ i ∧ i < addr + data.length then (if done then data[i - addr]? else none)
    else m.mem i
  seen := fun i => if addr ≤ i ∧ i < addr + data.length then none else m.seen i
  loose := m.loose || decide (addr ≠ cpucsAddr ∧ ¬ m.Held)
  faulty := m.faulty || !done

def Ram.read (m : Ram) (addr size : Nat) (buf : Nat → UInt8) : Ram :=
  { m with
    seen := fun i => if addr ≤ i ∧ i < addr + size then some (buf (i - addr)) else m.seen i
    faulty := m.faulty || !agrees m.mem addr size buf }

/-- One transfer, for the RAM. -/
def Ram.step (m : Ram) : Ctrl × Option (Nat → UInt8) → Ram
  | (.out request value data, answer) =>
      if request = cmdFx2lpRequest then m.write value data answer.isSome else m
  | (.inp request value size, some buf) =>
      if request = cmdFx2lpRequest then m.read value size buf else m
  | (.inp _ _ _, none) => { m with faulty := true }

/-! ## The RAM -/

section Sram

/-- Some bytes stand in front of the RAM and were read back, with the
processor held. -/
structure Loaded (data : List UInt8) (m : Ram) : Prop where
  mem : ∀ i < data.length, m.mem i = data[i]?
  seen : ∀ i < data.length, m.seen i = data[i]?
  held : m.Held
  tight : m.loose = false

/-- The errors of `fx2lp_sram_upload` itself. -/
def tooBig : Stop := .error "fx2lp_sram_upload(): file is too big"

def mismatch : Stop := .error "fx2lp_sram_upload(): verification failed"

/-- Where the program stops: behind a comparison with the processor still
held, and not without a fault of the device. -/
structure SramError (e : Stop) (m : Ram) : Prop where
  held : e = mismatch → m.Held ∧ m.loose = false
  fault : m.faulty = true

theorem sramError_usb (text : String) {m : Ram} (h : m.faulty = true) : SramError (.usb text) m :=
  ⟨fun he => absurd he (by simp [mismatch]), h⟩

@[simp] theorem mem_write (m : Ram) (addr : Nat) (data : List UInt8) (done : Bool) (i : Nat) :
    (m.write addr data done).mem i =
      if addr ≤ i ∧ i < addr + data.length then (if done then data[i - addr]? else none)
      else m.mem i := rfl

@[simp] theorem seen_write (m : Ram) (addr : Nat) (data : List UInt8) (done : Bool) (i : Nat) :
    (m.write addr data done).seen i =
      if addr ≤ i ∧ i < addr + data.length then none else m.seen i := rfl

@[simp] theorem seen_read (m : Ram) (addr size : Nat) (buf : Nat → UInt8) (i : Nat) :
    (m.read addr size buf).seen i =
      if addr ≤ i ∧ i < addr + size then some (buf (i - addr)) else m.seen i := rfl

theorem faulty_write_failed (m : Ram) (addr : Nat) (data : List UInt8) :
    (m.write addr data false).faulty = true := Bool.or_true _

/-- With the processor held, writing keeps it so, below its register. -/
theorem write_held {m : Ram} (h : m.Held) (htight : m.loose = false) {addr : Nat} {data : List UInt8}
    (hfits : addr + data.length ≤ cpucsAddr) (done : Bool) :
    (m.write addr data done).Held ∧ (m.write addr data done).loose = false := by
  refine ⟨?_, ?_⟩
  · rw [Ram.Held, mem_write, if_neg (by omega)]
    exact h
  · rw [Ram.write, htight, Bool.false_or, decide_eq_false_iff_not]
    exact fun hloose => hloose.2 h

/-- A piece that has been written behind what is there, but not read
back. -/
structure Written (done piece : List UInt8) (m : Ram) : Prop where
  mem : ∀ i < (done ++ piece).length, m.mem i = (done ++ piece)[i]?
  seen : ∀ i < done.length, m.seen i = done[i]?
  held : m.Held
  tight : m.loose = false

theorem Loaded.write {done piece : List UInt8} {m : Ram} (h : Loaded done m)
    (hfits : done.length + piece.length ≤ cpucsAddr) :
    Written done piece (m.write done.length piece true) := by
  obtain ⟨hheld, htight⟩ := write_held h.held h.tight hfits true
  refine ⟨fun i hi => ?_, fun i hi => ?_, hheld, htight⟩
  · rw [List.length_append] at hi
    by_cases hold : i < done.length
    · rw [mem_write, if_neg (by omega), h.mem i hold, List.getElem?_append_left hold]
    · rw [mem_write, if_pos (by omega), if_pos rfl, List.getElem?_append_right (by omega)]
  · rw [seen_write, if_neg (by omega), h.seen i hi]

/-- What is read back equal is loaded. -/
theorem Written.read {done piece : List UInt8} {m : Ram} (h : Written done piece m)
    {buf : Nat → UInt8} (hsame : piece = (List.range piece.length).map buf) :
    Loaded (done ++ piece) (m.read done.length piece.length buf) := by
  refine ⟨h.mem, fun i hi => ?_, h.held, h.tight⟩
  rw [List.length_append] at hi
  by_cases hold : i < done.length
  · rw [seen_read, if_neg (by omega), h.seen i hold, List.getElem?_append_left hold]
  · rw [seen_read, if_pos (by omega), List.getElem?_append_right (by omega), hsame,
      List.getElem?_map, List.getElem?_range (by omega)]
    rfl

/-- What is not read back equal is a fault. -/
theorem Written.fault {done piece : List UInt8} {m : Ram} (h : Written done piece m)
    {buf : Nat → UInt8} (hother : piece ≠ (List.range piece.length).map buf) :
    (m.read done.length piece.length buf).faulty = true := by
  rw [Ram.read, Bool.or_eq_true, Bool.not_eq_true']
  right
  rw [Bool.eq_false_iff]
  intro hagrees
  apply hother
  apply List.ext_getElem
  · rw [List.length_map, List.length_range]
  · intro k hk hk'
    have hcell := List.all_eq_true.mp hagrees k (List.mem_range.mpr hk)
    rw [h.mem _ (by rw [List.length_append]; omega), List.getElem?_append_right (by omega),
      Nat.add_sub_cancel_left, List.getElem?_eq_getElem hk] at hcell
    rw [List.getElem_map, List.getElem_range]
    exact eq_of_beq hcell

theorem sramPiece_spec {done piece : List UInt8} (hfits : done.length + piece.length ≤ cpucsAddr) :
    Triple Ram.step (Loaded done) (sramPiece done.length piece) (fun _ => Loaded (done ++ piece))
      SramError := by
  refine Triple.seq (M := Written done piece) (Triple.bind (Triple.call (fun m _ h => h.write hfits)
    fun m h => sramError_usb _ (faulty_write_failed _ _ _)) fun _ => Triple.pure fun _ h => h) ?_
  refine Triple.bind (Triple.call (Q := fun buf m => m.Held ∧ m.loose = false ∧
    (piece = (List.range piece.length).map buf → Loaded (done ++ piece) m) ∧
      (piece ≠ (List.range piece.length).map buf → m.faulty = true))
    (fun m buf h => ⟨h.held, h.tight, h.read, h.fault⟩) fun m _ => sramError_usb _ rfl)
      fun buf => ?_
  exact Triple.check (fun m h hsame => h.2.2.1 hsame)
    fun m h hother => ⟨fun _ => ⟨h.1, h.2.1⟩, h.2.2.2 hother⟩

theorem sramLoop_spec (n : Nat) : ∀ (done rest : List UInt8), rest.length ≤ n →
    done.length + rest.length ≤ cpucsAddr →
    Triple Ram.step (Loaded done) (sramLoop done.length rest) (fun _ => Loaded (done ++ rest))
      SramError := by
  induction n with
  | zero =>
      intro done rest hn hfits
      have hrest : rest = [] := List.eq_nil_of_length_eq_zero (Nat.le_zero.mp hn)
      rw [hrest, sramLoop, List.append_nil]
      exact Triple.pure fun _ h => h
  | succ n ih =>
      intro done rest hn hfits
      rw [sramLoop]
      split
      · rename_i hnil
        rw [List.eq_nil_of_length_eq_zero hnil, List.append_nil]
        exact Triple.pure fun _ h => h
      · rename_i hpos
        have hsz := pieceSize_le hpos
        generalize pieceSize rest.length = sz at hsz ⊢
        have htake : (rest.take sz).length = sz := List.length_take_of_le hsz.2
        have hdone : done.length + sz = (done ++ rest.take sz).length := by
          rw [List.length_append, htake]
        have hall : done ++ rest = (done ++ rest.take sz) ++ rest.drop sz := by
          rw [List.append_assoc, List.take_append_drop]
        rw [hdone, hall]
        refine (sramPiece_spec (by omega)).seq (ih _ _ ?_ ?_)
        · rw [List.length_drop]
          omega
        · rw [← hdone, List.length_drop]
          omega

/-- The whole image stands in the RAM and was read back, nothing of it
was written while the processor ran, and the processor is let go. -/
structure Uploaded (data : List UInt8) (m : Ram) : Prop where
  mem : ∀ i < data.length, m.mem i = data[i]?
  seen : ∀ i < data.length, m.seen i = data[i]?
  released : m.mem cpucsAddr = some 0
  tight : m.loose = false

/-- What `fx2lp_sram_upload` does behind its check. -/
theorem sramUpload_spec {data : List UInt8} (hle : data.length ≤ fx2lpSize) :
    Triple Ram.step (fun m => m.loose = false)
      (do usbFx2lpReset true; sramLoop 0 data; usbFx2lpReset false) (fun _ => Uploaded data)
      SramError := by
  have hfits : data.length < cpucsAddr := Nat.lt_of_le_of_lt hle (by decide)
  refine Triple.seq (M := Loaded []) (Triple.bind (Triple.call (Q := fun _ => Loaded [])
    (fun m _ h => ?_) fun m _ => sramError_usb _ (faulty_write_failed _ _ _))
      fun _ => Triple.pure fun _ h => h) ?_
  · refine ⟨fun i hi => absurd hi (Nat.not_lt_zero i), fun i hi => absurd hi (Nat.not_lt_zero i),
      rfl, ?_⟩
    simp [Ram.step, Ram.write, h]
  refine Triple.seq (M := Loaded data)
    (sramLoop_spec data.length [] data (Nat.le_refl _) (by simpa using Nat.le_of_lt hfits)) ?_
  refine Triple.bind (Triple.call (Q := fun _ => Uploaded data) (fun m _ h => ?_)
    fun m _ => sramError_usb _ (faulty_write_failed _ _ _)) fun _ => Triple.pure fun _ h => h
  refine ⟨fun i hi => ?_, fun i hi => ?_, rfl, ?_⟩
  · show (m.write cpucsAddr [0] true).mem i = _
    rw [mem_write, if_neg (by omega), h.mem i hi]
  · show (m.write cpucsAddr [0] true).seen i = _
    rw [seen_write, if_neg (by omega), h.seen i hi]
  · simp [Ram.step, Ram.write, h.tight]

/-- A RAM that gives back what was written. -/
def workingRam : Peer Ctrl (Nat → UInt8) := fun log c =>
  let m := log.foldl Ram.step ⟨fun _ => none, fun _ => none, false, false⟩
  match c with
  | .out _ _ _ => some fun _ => 0
  | .inp _ addr _ => some fun i => (m.mem (addr + i)).getD 0

/-- An image of two pieces. -/
def smallImage : List UInt8 := (List.range 100).map UInt8.ofNat

end Sram

/-! ## The EEPROM -/

/-- The EEPROM, with the address it goes on reading from. `faulty` is as
for the RAM. -/
structure Eeprom where
  pointer : Nat
  mem : Nat → Option UInt8
  seen : Nat → Option UInt8
  faulty : Bool

/-- The size of a page in the EEPROM itself. -/
def pageBytes : Nat := 64

/-- A byte of a page goes behind the one before, or to the start of the
page. So the byte for cell `i` is the one this far from the address. -/
def pageOffset (addr i : Nat) : Nat := (i + pageBytes - addr % pageBytes) % pageBytes

/-- Bytes for one page. -/
def Eeprom.write (m : Eeprom) (addr : Nat) (data : List UInt8) (done : Bool) : Eeprom where
  pointer := addr + data.length
  mem := fun i =>
    if i / pageBytes = addr / pageBytes ∧ pageOffset addr i < data.length then
      (if done then data[pageOffset addr i]? else none)
    else m.mem i
  seen := fun i =>
    if i / pageBytes = addr / pageBytes ∧ pageOffset addr i < data.length then none else m.seen i
  faulty := m.faulty || !done

def Eeprom.read (m : Eeprom) (size : Nat) (buf : Nat → UInt8) : Eeprom :=
  { m with
    pointer := m.pointer + size
    seen := fun i =>
      if m.pointer ≤ i ∧ i < m.pointer + size then some (buf (i - m.pointer)) else m.seen i
    faulty := m.faulty || !agrees m.mem m.pointer size buf }

/-- One transfer, for the EEPROM: two bytes of address, then data. -/
def Eeprom.step (m : Eeprom) : Ctrl × Option (Nat → UInt8) → Eeprom
  | (.out request value (hi :: lo :: data), answer) =>
      if request = cmdI2cWrite ∧ value = eepromAddr then
        m.write (hi.toNat * 256 + lo.toNat) data answer.isSome
      else m
  | (.out _ _ _, _) => m
  | (.inp request value size, some buf) =>
      if request = cmdI2cRead ∧ value = eepromAddr ||| 1 then m.read size buf else m
  | (.inp _ _ _, none) => { m with faulty := true }

section Eeprom

/-- The first `n` cells are those of the buffer, and were read back. -/
structure Stored (buf : Nat → UInt8) (n : Nat) (m : Eeprom) : Prop where
  mem : ∀ i < n, m.mem i = some (buf i)
  seen : ∀ i < n, m.seen i = some (buf i)

/-- The address bytes are read as the address. -/
theorem addressBytes_read {addr : Nat} (h : addr < fx2lpSize) :
    (UInt8.ofNat (addr >>> 8)).toNat * 256 + (UInt8.ofNat addr).toNat = addr := by
  rw [fx2lpSize] at h
  rw [UInt8.toNat_ofNat', UInt8.toNat_ofNat', Nat.shiftRight_eq_div_pow]
  omega

/-- Half a page does not wrap. -/
theorem pageOffset_iff {addr : Nat} (h : addr % eepromPageSize = 0) (i : Nat) :
    (i / pageBytes = addr / pageBytes ∧ pageOffset addr i < eepromPageSize ↔
        addr ≤ i ∧ i < addr + eepromPageSize) ∧
      (addr ≤ i → i < addr + eepromPageSize → pageOffset addr i = i - addr) := by
  simp only [pageOffset, pageBytes, eepromPageSize] at h ⊢
  omega

/-- A step for an address and data. -/
theorem step_i2cWrite (m : Eeprom) {addr : Nat} (h : addr < fx2lpSize) (data : List UInt8)
    (answer : Option (Nat → UInt8)) :
    m.step (.out cmdI2cWrite eepromAddr (addressBytes addr ++ data), answer) =
      m.write addr data answer.isSome := by
  show (if cmdI2cWrite = cmdI2cWrite ∧ eepromAddr = eepromAddr then
    m.write ((UInt8.ofNat (addr >>> 8)).toNat * 256 + (UInt8.ofNat addr).toNat) data answer.isSome
    else m) = _
  rw [if_pos ⟨rfl, rfl⟩, addressBytes_read h]

/-- The cells of half a page, after it was written. -/
theorem Stored.write {buf : Nat → UInt8} {addr : Nat} {m : Eeprom} (h : Stored buf addr m)
    (hpage : addr % eepromPageSize = 0) :
    let m' := m.write addr ((List.range eepromPageSize).map fun i => buf (addr + i)) true
    (∀ i < addr + eepromPageSize, m'.mem i = some (buf i)) ∧ ∀ i < addr, m'.seen i = some (buf i) := by
  intro m'
  have hlen : ((List.range eepromPageSize).map fun i => buf (addr + i)).length = eepromPageSize := by
    rw [List.length_map, List.length_range]
  refine ⟨fun i hi => ?_, fun i hi => ?_⟩
  · obtain ⟨hiff, hoffset⟩ := pageOffset_iff hpage i
    show (if _ then _ else m.mem i) = _
    rw [hlen]
    by_cases hin : addr ≤ i
    · rw [if_pos (hiff.mpr ⟨hin, hi⟩), if_pos rfl, hoffset hin hi, List.getElem?_map,
        List.getElem?_range (by omega), Option.map_some, Nat.add_sub_cancel' hin]
    · rw [if_neg (fun hc => hin (hiff.mp hc).1), h.mem i (by omega)]
  · obtain ⟨hiff, -⟩ := pageOffset_iff hpage i
    show (if _ then none else m.seen i) = _
    rw [hlen, if_neg (fun hc => by have hle := (hiff.mp hc).1; omega), h.seen i hi]

theorem write_nil (m : Eeprom) (addr : Nat) :
    m.write addr [] true = { m with pointer := addr } := by
  simp [Eeprom.write]

theorem eepromWrite_failed (m : Eeprom) (addr : Nat) (data : List UInt8) :
    (m.write addr data false).faulty = true := Bool.or_true _

/-- One turn stores half a page. -/
theorem eepromPage_spec (buf : Nat → UInt8) {addr : Nat} (haddr : addr < fx2lpSize)
    (hpage : addr % eepromPageSize = 0) :
    Triple Eeprom.step (Stored buf addr) (eepromPage buf addr)
      (fun _ => Stored buf (addr + eepromPageSize)) fun _ m => m.faulty = true := by
  have hvalid : ∀ {n : Nat}, n ≤ eepromPageSize → eepromRequestValid addr n :=
    fun hn => ⟨haddr, hpage, hn⟩
  have hlen : ((List.range eepromPageSize).map fun i => buf (addr + i)).length = eepromPageSize := by
    rw [List.length_map, List.length_range]
  refine Triple.seq (M := fun m => (∀ i < addr + eepromPageSize, m.mem i = some (buf i)) ∧
    ∀ i < addr, m.seen i = some (buf i)) ?_ ?_
  · rw [fx2lpEepromWrite, hlen, Prog.check, if_pos (hvalid (Nat.le_refl _))]
    refine Triple.seq (Triple.pure fun m (h : Stored buf addr m) => h)
      (Triple.bind (Triple.call (fun m r h => ?_) fun m _ => ?_) fun _ => Triple.pure fun _ h => h)
    · rw [step_i2cWrite m haddr]
      exact h.write hpage
    · rw [step_i2cWrite m haddr]
      exact eepromWrite_failed _ _ _
  refine Triple.bind (Q := fun tmp m => (∀ i < addr + eepromPageSize, m.mem i = some (buf i)) ∧
    (∀ i < addr, m.seen i = some (buf i)) ∧
      (∀ i < eepromPageSize, m.seen (addr + i) = some (tmp i)) ∧
        ((∃ i < eepromPageSize, buf (addr + i) ≠ tmp i) → m.faulty = true)) ?_ fun tmp => ?_
  · rw [fx2lpEepromRead, Prog.check, if_pos (hvalid (Nat.le_refl _))]
    refine Triple.seq (Triple.pure fun m h => h) (Triple.seq (M := fun m => m.pointer = addr ∧
      (∀ i < addr + eepromPageSize, m.mem i = some (buf i)) ∧ ∀ i < addr, m.seen i = some (buf i))
      (Triple.bind (Triple.call (fun m r h => ?_) fun m _ => ?_) fun _ => Triple.pure fun _ h => h)
      (Triple.call (fun m tmp h => ?_) fun m _ => rfl))
    · have hstep := step_i2cWrite m haddr [] (some r)
      rw [List.append_nil] at hstep
      rw [hstep, Option.isSome_some, write_nil]
      exact ⟨rfl, h⟩
    · have hstep := step_i2cWrite m haddr [] none
      rw [List.append_nil] at hstep
      rw [hstep]
      exact eepromWrite_failed _ _ _
    · obtain ⟨hpointer, hmem, hseen⟩ := h
      have hstep : m.step (.inp cmdI2cRead (eepromAddr ||| 1) eepromPageSize, some tmp) =
          m.read eepromPageSize tmp := rfl
      rw [hstep]
      refine ⟨hmem, fun i hi => ?_, fun i hi => ?_, ?_⟩
      · show (if _ then _ else m.seen i) = _
        rw [hpointer, if_neg (by omega), hseen i hi]
      · show (if _ then _ else _) = _
        rw [hpointer, if_pos (by omega), Nat.add_sub_cancel_left]
      · rintro ⟨i, hi, hne⟩
        rw [Eeprom.read, Bool.or_eq_true, Bool.not_eq_true']
        right
        rw [Bool.eq_false_iff]
        intro hagrees
        have hcell := List.all_eq_true.mp hagrees i (List.mem_range.mpr hi)
        rw [hpointer, hmem _ (by omega)] at hcell
        exact hne (eq_of_beq hcell)
  · refine Triple.check (fun m h hsame => ⟨h.1, fun i hi => ?_⟩) fun m h hother => h.2.2.2 ?_
    · by_cases hold : i < addr
      · exact h.2.1 i hold
      · have hcell := h.2.2.1 (i - addr) (by omega)
        rw [← hsame (i - addr) (by omega)] at hcell
        rwa [Nat.add_sub_cancel' (by omega)] at hcell
    · obtain ⟨i, hne⟩ := not_forall.mp hother
      obtain ⟨hi, hne⟩ := not_forall.mp hne
      exact ⟨i, hi, hne⟩

theorem eepromSize_pages (n : Nat) :
    eepromSize n / eepromPageSize * eepromPageSize = eepromSize n := by
  rw [eepromSize, Nat.mul_div_cancel _ (by decide)]

/-- What `fx2lp_eeprom_upload` does behind its check. -/
theorem eepromLoop_spec {data : List UInt8} (hle : eepromSize data.length ≤ fx2lpSize) :
    Triple Eeprom.step (fun _ => True)
      (Prog.upTo (eepromSize data.length / eepromPageSize) fun k =>
        eepromPage (eepromBuf data) (k * eepromPageSize))
      (fun _ => Stored (eepromBuf data) (eepromSize data.length)) fun _ m => m.faulty = true := by
  have hpages := eepromSize_pages data.length
  have hstep : ∀ k, k < eepromSize data.length / eepromPageSize →
      Triple Eeprom.step (Stored (eepromBuf data) (k * eepromPageSize))
        (eepromPage (eepromBuf data) (k * eepromPageSize))
        (fun _ => Stored (eepromBuf data) ((k + 1) * eepromPageSize)) fun _ m => m.faulty = true := by
    intro k hk
    have hlt : k * eepromPageSize < fx2lpSize := by
      have hmul : (k + 1) * eepromPageSize ≤
          eepromSize data.length / eepromPageSize * eepromPageSize := Nat.mul_le_mul_right _ hk
      simp only [eepromPageSize] at hpages hmul ⊢
      omega
    rw [Nat.succ_mul]
    exact eepromPage_spec _ hlt (Nat.mul_mod_left _ _)
  have hloop := Triple.upTo (I := fun k => Stored (eepromBuf data) (k * eepromPageSize)) hstep
  rw [hpages] at hloop
  refine hloop.pre fun m _ => ⟨fun i hi => ?_, fun i hi => ?_⟩
  · omega
  · omega

/-! ### The image -/

/-- The image: the boot header with the size, the firmware and the
footer. -/
def bootImage (data : List UInt8) : List UInt8 :=
  [0xc2, 0xff, 0xff, 0xff, 0xff, 0xff, 0xff, 1, UInt8.ofNat (data.length >>> 8),
    UInt8.ofNat data.length, 0, 0] ++ data ++ [0x80, 0x01, 0xe6, 0x00, 0x00]

/-- The stores into the buffer make the image, and leave `0xff` behind
it. -/
theorem eepromBuf_eq (data : List UInt8) (i : Nat) :
    eepromBuf data i = (bootImage data).getD i 0xff := by
  have hlen : (bootImage data).length = data.length + 17 := by
    simp only [bootImage, List.length_append, List.length_cons, List.length_nil]
    omega
  rw [List.getD_eq_getElem?_getD]
  by_cases hhead : i < 12
  · rw [bootImage, List.append_assoc, List.getElem?_append_left (by simpa using hhead)]
    simp only [eepromBuf, memcpy, fx2lpHeader, List.length_cons, List.length_nil]
    rw [if_neg (by omega), if_neg (by omega)]
    interval_cases i <;> rfl
  · by_cases hbody : i < 12 + data.length
    · rw [bootImage, List.append_assoc, List.getElem?_append_right (by simpa using Nat.not_lt.mp hhead),
        List.getElem?_append_left (by simp; omega)]
      simp only [eepromBuf, memcpy, fx2lpHeader, List.length_cons, List.length_nil]
      rw [if_neg (by omega), if_pos (by omega), List.getD_eq_getElem?_getD,
        List.getElem?_eq_getElem (by omega)]
      rfl
    · by_cases hfoot : i < data.length + 17
      · rw [bootImage, List.getElem?_append_right (by simp; omega)]
        simp only [eepromBuf, memcpy, fx2lpHeader, List.length_append, List.length_cons,
          List.length_nil]
        rw [if_pos (by omega), List.getD_eq_getElem?_getD,
          show i - (12 + data.length) = i - (0 + 1 + 1 + 1 + 1 + 1 + 1 + 1 + 1 + 1 + 1 + 1 + 1 + data.length) by omega,
          List.getElem?_eq_getElem (by simp; omega)]
        rfl
      · rw [List.getElem?_eq_none (by omega)]
        simp only [eepromBuf, memcpy, fx2lpHeader, List.length_cons, List.length_nil]
        rw [if_neg (by omega), if_neg (by omega), if_neg (by omega), if_neg (by omega)]
        rfl

/-- The text and its NUL are written over the file; it stays as long. -/
theorem patchSerial_length {data : List UInt8} {sn : Nat} (h : sn + 14 ≤ data.length)
    (traceid : Nat) : (patchSerial data sn traceid).length = data.length := by
  have htext : (serialText traceid).length = 14 := by rw [serialText, List.length_map, List.length_range]
  rw [patchSerial, List.length_take]
  simp only [List.length_append, List.length_take, List.length_drop, List.length_singleton, htext]
  omega

/-- Where the placeholder is found there is room for it. -/
theorem placeholder_fits {data : List UInt8} {sn : Nat}
    (h : Jed.findStr data data.length snPlaceholder = some sn) : sn + 14 ≤ data.length := by
  have hlen := (Jed.findStr_some h).1.length_le
  have htext : snPlaceholder.length = 14 := by decide
  rw [htext, List.length_drop] at hlen
  omega

/-- The errors before anything is sent. -/
def noPlaceholder : Stop :=
  .error "provided binary does not include a placeholder for the serial number"

def eepromTooBig : Stop := .error "fx2lp_eeprom_upload(): file is too big"

end Eeprom

end UsbSniffer.Gen1.Fx2lp
