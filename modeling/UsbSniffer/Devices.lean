import UsbSniffer.Lib.Dialogue
import UsbSniffer.Frontend

/-!
# Which device is opened

`device_probe` of `device.c`, the two functions that open a device
(`usb_open` of `gen1/usb.c`, `tl_open_handle` of `transport_libusb.c`)
with what calls them, and `main` from the command line to the last
`close`. What is done with an open device is a single call here; the
other modules are about it.

The bus answers what it likes: every listing may be another one, a
descriptor may not be readable, an open or a claim may fail. `Bus` is
what an observer of the calls knows, and `main_devices` what he sees:
which devices the program opens, on which it works, and that it keeps
one handle at a time.
-/

namespace UsbSniffer.Devices

open Lib.Dialogue Extcap

/-! ## `device.c` -/

/-- What is looked at in a device descriptor. -/
structure Descriptor where
  idVendor : UInt16
  idProduct : UInt16
  bcdDevice : UInt16
deriving DecidableEq, Repr

/-- A device list; `none` is a device whose descriptor cannot be
read. -/
abbrev Listing := List (Option Descriptor)

/-- `device_is_gen2`. -/
def deviceIsGen2 (d : Descriptor) : Bool :=
  d.idVendor == 0x1209 && d.idProduct == 0x6688 && d.bcdDevice == 0x0602

/-- `gen1_classify`. -/
def gen1Classify (d : Descriptor) : Bool :=
  if d.idVendor == 0x6666 && d.idProduct == 0x6620 then true
  else if d.idVendor == 0x1209 && d.idProduct == 0x6688 then d.bcdDevice == 0x0001
  else false

/-- `USB_VID_FX2LP`, `USB_PID_FX2LP`. -/
def isFx2lp (d : Descriptor) : Bool := d.idVendor == 0x04B4 && d.idProduct == 0x8613

/-- `device_kind`. -/
inductive DeviceKind where
  | none
  | gen1
  | gen2
  | both
  | fx2lpOnly
deriving DecidableEq, Repr

/-- `gen1`, `gen2` and `fx2lp` of `device_probe`. -/
structure Seen where
  gen1 : Bool
  gen2 : Bool
  fx2lp : Bool
deriving DecidableEq, Repr

/-- One device. -/
def Seen.see (s : Seen) (d : Descriptor) : Seen where
  gen1 := s.gen1 || gen1Classify d
  fx2lp := s.fx2lp || isFx2lp d
  gen2 := s.gen2 || deviceIsGen2 d

/-- The loop of `device_probe`. -/
def probeLoop : Listing → Seen → Seen
  | [], s => s
  | none :: ds, s => probeLoop ds s
  | some d :: ds, s =>
      -- `break`
      if (s.see d).gen1 && (s.see d).gen2 then s.see d else probeLoop ds (s.see d)

/-- The end of `device_probe`. -/
def Seen.kind (s : Seen) : DeviceKind :=
  if s.gen1 && s.gen2 then .both
  else if s.gen1 then .gen1
  else if s.gen2 then .gen2
  else if s.fx2lp then .fx2lpOnly
  else .none

/-! ## The calls -/

/-- What is done with a device that is open and claimed. -/
inductive Work where
  | startup
  | gen2Session
  | gen1Session
  | speedTest
  | traceid
  | sramUpload
  | eepromUpload
  | fpgaSram
  | fpgaFlash
  | fpgaErase
deriving DecidableEq, Repr

inductive Call where
  | libusbInit
  | libusbExit
  | getDeviceList
  | openDevice (i : Nat)
  | claimInterface
  | releaseInterface
  | closeHandle
  | softReset
  | sleep (ms : Nat)
  | file (name : List UInt8)
  | work (w : Work)
deriving DecidableEq, Repr

/-- Whether it succeeded, and the listing. -/
structure Reply where
  ok : Bool
  devices : Listing

/-- The end of a program that gives up: in `parse_command_line`, within a
call, or by `os_error`. -/
inductive Stop where
  | ended (how : Ending)
  | exited
  | error (format : String)
  | missing (kind : DeviceKind)
deriving DecidableEq, Repr

abbrev Host (α : Type) := Prog Call Reply Stop α

def ask (c : Call) : Host Bool := do
  let r ← Prog.call c .exited
  pure r.ok

/-- A call that has to succeed. -/
def need (c : Call) (format : String) : Host Unit := do
  Prog.check (← ask c) (.error format)

/-- `libusb_get_device_list`, where a failure is an error. -/
def needDeviceList : Host Listing := do
  let r ← Prog.call .getDeviceList .exited
  Prog.check r.ok (.error "libusb_get_device_list(): %s")
  pure r.devices

/-- `device_probe`. -/
def deviceProbe : Host DeviceKind := do
  need .libusbInit "libusb_init(): %s"
  let devices ← needDeviceList
  let _ ← ask .libusbExit
  pure (probeLoop devices ⟨false, false, false⟩).kind

/-- The loop that opens the first device that matches and can be opened,
`i` the index of the first one left. -/
def openFirst (accept : Descriptor → Bool) : Listing → Nat → Host Bool
  | [], _ => pure false
  | none :: ds, i => openFirst accept ds (i + 1)
  | some d :: ds, i => do
      if accept d then
        if ← ask (.openDevice i) then pure true else openFirst accept ds (i + 1)
      else openFirst accept ds (i + 1)

/-! ### `gen1/usb.c` -/

/-- The devices `usb_open` takes. -/
def usbAccepts (vid pid bcdAccept : UInt16) (d : Descriptor) : Bool :=
  d.idVendor == vid && d.idProduct == pid && (bcdAccept == 0 || d.bcdDevice == bcdAccept)

/-- `usb_open`. -/
def usbOpen (vid pid bcdAccept : UInt16) : Host Bool := do
  let devices ← needDeviceList
  if ← openFirst (usbAccepts vid pid bcdAccept) devices 0 then
    need .claimInterface "libusb_claim_interface(): %s"
    pure true
  else pure false

/-- `open_capture_device`. -/
def openCaptureDevice : Host Unit := do
  if ← usbOpen 0x1209 0x6688 0x0001 then pure ()
  else if ← usbOpen 0x6666 0x6620 0 then pure ()
  else Prog.stop (.error
    "could not open a capture device (gen1 1209:6688 rev 0x0001 or legacy 6666:6620)")

/-- `usb_close` with an open handle. -/
def usbClose : Host Unit := do
  let _ ← ask .closeHandle
  let _ ← ask .libusbExit

/-! ### `transport_libusb.c` -/

/-- The attempts of `tl_open_handle` that are left. -/
def openAttempts : Nat → Host Bool
  | 0 => pure false
  | left + 1 => do
      let r ← Prog.call .getDeviceList .exited
      if r.ok then
        if ← openFirst deviceIsGen2 r.devices 0 then pure true
        else
          if left ≠ 0 then
            let _ ← ask (.sleep 100)
          openAttempts left
      else pure false

/-- `tl_open_handle`. -/
def tlOpenHandle : Host Bool := do
  if ← openAttempts 50 then
    if ← ask .claimInterface then pure true
    else
      let _ ← ask .closeHandle
      pure false
  else pure false

/-- `tl_open`. -/
def tlOpen : Host Unit := do
  need .libusbInit "libusb_init(): %s"
  if ← tlOpenHandle then pure ()
  else
    let _ ← ask .libusbExit
    Prog.stop (.error "could not open the capture device (VID %04x:PID %04x)")

/-- `tl_reset_device`, in the command phase. -/
def tlResetDevice : Host Bool := do
  -- a request that fails is logged only
  let _ ← ask .softReset
  let _ ← ask .releaseInterface
  let _ ← ask .closeHandle
  let _ ← ask (.sleep 500)
  tlOpenHandle

/-- `tl_close` with an open handle. -/
def tlClose : Host Unit := do
  let _ ← ask .softReset
  let _ ← ask .releaseInterface
  let _ ← ask .closeHandle
  let _ ← ask .libusbExit

/-! ### `main.c` -/

/-- `run_capture_gen2` with a device. The raw queue is taken to start; a
failure of it ends the program before anything is opened. -/
def runCaptureGen2 (fifo : List UInt8) : Host Unit := do
  need (.file fifo) "could not open FIFO pipe '%s'"
  tlOpen
  if ← ask (.work .startup) then pure ()
  else
    Prog.check (← tlResetDevice) (.error "FPGA not responding and device reset is unavailable")
    let _ ← ask (.sleep 200)
    need (.work .startup) "FPGA did not acknowledge the init sequence after device reset"
  let _ ← ask (.work .gen2Session)
  tlClose

/-- `run_capture_gen2` with a recorded stream. -/
def runReplay (file out : List UInt8) : Host Unit := do
  need (.file out) "could not open FIFO pipe '%s'"
  need (.file file) "could not open replay stream '%s': %s"

/-- `run_capture_gen1`. -/
def runCaptureGen1 (fifo : List UInt8) : Host Unit := do
  need .libusbInit "libusb_init(): %s"
  need (.file fifo) "could not open FIFO pipe"
  openCaptureDevice
  let _ ← ask (.work .gen1Session)
  usbClose

/-- `run_selected_capture` without a recorded stream. -/
def runSelectedCapture (o : Options) (fifo : List UInt8) : Host Unit := do
  Prog.check (o.foreignInterface = false) (.error "invalid interface '%s'")
  match ← deviceProbe with
  | .gen1 => runCaptureGen1 fifo
  | .gen2 => runCaptureGen2 fifo
  -- `missing_device_error`
  | probe => Prog.stop (.missing probe)

/-- `maint_mcu_sram`. -/
def maintMcuSram (name : List UInt8) : Host Unit := do
  need .libusbInit "libusb_init(): %s"
  Prog.check (← usbOpen 0x04B4 0x8613 0) (.error "could not open unconfigured FX2LP device")
  need (.file name) "os_file_read_all(): %s"
  let _ ← ask (.work .sramUpload)
  usbClose

/-- `maint_mcu_eeprom`, without the `os_check` for the placeholder, which
can end it between the file and the upload. -/
def maintMcuEeprom (name : List UInt8) : Host Unit := do
  need .libusbInit "libusb_init(): %s"
  openCaptureDevice
  let _ ← ask (.work .traceid)
  need (.file name) "os_file_read_all(): %s"
  let _ ← ask (.work .eepromUpload)
  usbClose

/-- What `maint_fpga_program_sram`, `maint_fpga_program_flash`,
`maint_fpga_erase` and `maint_speed_test` have in common. -/
def maintCapture (w : Work) : Host Unit := do
  need .libusbInit "libusb_init(): %s"
  openCaptureDevice
  let _ ← ask (.work w)
  usbClose

/-- `maint_fpga_program_sram`. -/
def maintFpgaProgramSram (name : List UInt8) : Host Unit := do
  need (.file name) "os_file_read_all(): %s"
  maintCapture .fpgaSram

/-- `maint_fpga_program_flash`. -/
def maintFpgaProgramFlash (name : List UInt8) : Host Unit := do
  need (.file name) "os_file_read_all(): %s"
  maintCapture .fpgaFlash

/-- `maint_fpga_erase`. -/
def maintFpgaErase : Host Unit := maintCapture .fpgaErase

/-- `maint_speed_test`. -/
def maintSpeedTest : Host Unit := maintCapture .speedTest

/-- `main` behind `parse_command_line`. -/
def perform (p : Parsed) : Host Unit :=
  match p.action with
  | .ended how => Prog.stop (.ended how)
  | .answered _ _ => pure ()
  | .replay file out _ => runReplay file out
  | .capture fifo _ => runSelectedCapture p.options fifo
  | .test => maintSpeedTest
  | .mcuSram name => maintMcuSram name
  | .mcuEeprom name => maintMcuEeprom name
  | .fpgaSram name => maintFpgaProgramSram name
  | .fpgaFlash name => maintFpgaProgramFlash name
  | .fpgaErase => maintFpgaErase
  | .nothing => pure ()

/-- `main`. -/
def main (args : List CString) : Host Unit :=
  match parseCommandLine args with
  | .error how => Prog.stop (.ended how)
  | .ok p => perform p

/-! ## The observer -/

/-- The listings so far, the device whose handle is open, whether its
interface is claimed, the devices that were opened and what was done with
them; `wrong` once a handle is opened over another one, closed twice, or
used without a claim. -/
structure Bus where
  listings : List Listing
  held : Option Descriptor
  claimed : Bool
  opened : List Descriptor
  worked : List (Work × Descriptor)
  wrong : Bool

def Bus.initial : Bus := ⟨[], none, false, [], [], false⟩

/-- The device at a place of the last listing. -/
def Bus.device (b : Bus) (i : Nat) : Option Descriptor := do
  let listing ← b.listings.getLast?
  (listing[i]?).join

/-- One call. -/
def Bus.step (b : Bus) : Call × Option Reply → Bus
  | (.getDeviceList, some r) => if r.ok then { b with listings := b.listings ++ [r.devices] } else b
  | (.openDevice i, some r) =>
      if r.ok then
        match b.device i with
        | some d => { b with held := some d, claimed := false, opened := b.opened ++ [d],
                             wrong := b.wrong || b.held.isSome }
        | none => { b with wrong := true }
      else b
  | (.claimInterface, some r) =>
      if r.ok then { b with claimed := true, wrong := b.wrong || b.held.isNone } else b
  | (.releaseInterface, some _) => { b with claimed := false, wrong := b.wrong || !b.claimed }
  | (.closeHandle, some _) =>
      { b with held := none, claimed := false, wrong := b.wrong || b.held.isNone }
  | (.softReset, some _) => { b with wrong := b.wrong || b.held.isNone }
  | (.work w, _) =>
      match b.held, b.claimed with
      | some d, true => { b with worked := b.worked ++ [(w, d)] }
      | _, _ => { b with wrong := true }
  | _ => b

/-! ## The probe -/

/-- A device of a kind is listed. -/
def Lists (accept : Descriptor → Bool) (ds : Listing) : Prop := ∃ d, some d ∈ ds ∧ accept d = true

instance (accept : Descriptor → Bool) (ds : Listing) : Decidable (Lists accept ds) :=
  decidable_of_iff (ds.any fun d => d.any accept) <| by simp [Lists, Option.any_eq_true]

@[simp] theorem lists_nil (accept : Descriptor → Bool) : ¬ Lists accept [] := by simp [Lists]

@[simp] theorem lists_none (accept : Descriptor → Bool) (ds : Listing) :
    Lists accept (none :: ds) ↔ Lists accept ds := by
  simp [Lists]

@[simp] theorem lists_some (accept : Descriptor → Bool) (d : Descriptor) (ds : Listing) :
    Lists accept (some d :: ds) ↔ accept d = true ∨ Lists accept ds := by
  simp only [Lists, List.mem_cons, Option.some.injEq]
  constructor
  · rintro ⟨e, rfl | he, hacc⟩
    · exact Or.inl hacc
    · exact Or.inr ⟨e, he, hacc⟩
  · rintro (hacc | ⟨e, he, hacc⟩)
    · exact ⟨d, Or.inl rfl, hacc⟩
    · exact ⟨e, Or.inr he, hacc⟩

/-- What the loop has seen. It may leave out a bare FX2LP behind a device
of each generation, where it does not matter. -/
theorem probeLoop_seen (ds : Listing) (s : Seen) :
    ((probeLoop ds s).gen1 = true ↔ s.gen1 = true ∨ Lists gen1Classify ds) ∧
      ((probeLoop ds s).gen2 = true ↔ s.gen2 = true ∨ Lists deviceIsGen2 ds) ∧
      (¬ ((probeLoop ds s).gen1 = true ∧ (probeLoop ds s).gen2 = true) →
        ((probeLoop ds s).fx2lp = true ↔ s.fx2lp = true ∨ Lists isFx2lp ds)) := by
  induction ds generalizing s with
  | nil => simp [probeLoop]
  | cons d ds ih =>
      cases d with
      | none => simpa [probeLoop] using ih s
      | some d =>
          simp only [probeLoop, lists_some]
          split
          · rename_i hboth
            simp only [Seen.see, Bool.and_eq_true, Bool.or_eq_true] at hboth
            obtain ⟨h1, h2⟩ := hboth
            refine ⟨?_, ?_, fun h => absurd ?_ h⟩
            · simp only [Seen.see, Bool.or_eq_true, h1, true_iff]
              rcases h1 with h | h
              · exact Or.inl h
              · exact Or.inr (Or.inl h)
            · simp only [Seen.see, Bool.or_eq_true, h2, true_iff]
              rcases h2 with h | h
              · exact Or.inl h
              · exact Or.inr (Or.inl h)
            · simp [Seen.see, h1, h2]
          · obtain ⟨h1, h2, h3⟩ := ih (s.see d)
            simp only [Seen.see, Bool.or_eq_true, or_assoc] at h1 h2 h3
            exact ⟨h1, h2, h3⟩

/-- `device_probe` of a listing. -/
def kindOf (ds : Listing) : DeviceKind := (probeLoop ds ⟨false, false, false⟩).kind

/-- **The probe tells what is listed**, in whatever order, how often, and
with whatever else. A bare FX2LP counts only when there is nothing
else. -/
theorem kindOf_eq (ds : Listing) : kindOf ds =
    if Lists gen1Classify ds then (if Lists deviceIsGen2 ds then .both else .gen1)
    else if Lists deviceIsGen2 ds then .gen2
    else if Lists isFx2lp ds then .fx2lpOnly else .none := by
  obtain ⟨h1, h2, h3⟩ := probeLoop_seen ds ⟨false, false, false⟩
  simp only [Bool.false_eq_true, false_or] at h1 h2 h3
  by_cases hgen1 : Lists gen1Classify ds
  · by_cases hgen2 : Lists deviceIsGen2 ds
    · simp [kindOf, Seen.kind, h1.mpr hgen1, h2.mpr hgen2, hgen1, hgen2]
    · have hf := Bool.eq_false_iff.mpr fun h => hgen2 (h2.mp h)
      simp [kindOf, Seen.kind, h1.mpr hgen1, hf, hgen1, hgen2]
  · have hf1 := Bool.eq_false_iff.mpr fun h => hgen1 (h1.mp h)
    by_cases hgen2 : Lists deviceIsGen2 ds
    · simp [kindOf, Seen.kind, h2.mpr hgen2, hf1, hgen1, hgen2]
    · have hf2 := Bool.eq_false_iff.mpr fun h => hgen2 (h2.mp h)
      have h3 := h3 (by simp [hf1])
      by_cases hfx : Lists isFx2lp ds
      · simp [kindOf, Seen.kind, hf1, hf2, h3.mpr hfx, hgen1, hgen2, hfx]
      · have hf3 := Bool.eq_false_iff.mpr fun h => hfx (h3.mp h)
        simp [kindOf, Seen.kind, hf1, hf2, hf3, hgen1, hgen2, hfx]

/-! ## What is opened -/

/-- Nothing went wrong, the first listing is the one of the probe, if
there was one, and only devices of one kind were opened and worked on. -/
structure Kept (first : Option Listing) (own : Descriptor → Prop) (fit : Work → Prop) (b : Bus) :
    Prop where
  right : b.wrong = false
  first : ∀ ds, first = some ds → b.listings.head? = some ds
  opened : ∀ d ∈ b.opened, own d
  worked : ∀ x ∈ b.worked, x.2 ∈ b.opened ∧ fit x.1
  held : ∀ d, b.held = some d → d ∈ b.opened

/-- The same, whether a handle is open and claimed, and whether something
was done with a device. -/
structure Stands (first : Option Listing) (own : Descriptor → Prop) (fit : Work → Prop)
    (isOpen claimed done : Bool) (b : Bus) : Prop where
  kept : Kept first own fit b
  isOpen : b.held.isSome = isOpen
  claimed : b.claimed = claimed
  done : done = true → b.worked ≠ []

/-- What an error leaves behind. -/
def Failed (first : Option Listing) (own : Descriptor → Prop) (fit : Work → Prop) (e : Stop)
    (b : Bus) : Prop :=
  Kept first own fit b ∧ ∀ kind, e ≠ .missing kind

section Specs

variable {first : Option Listing} {own : Descriptor → Prop} {fit : Work → Prop} 
  {isOpen claimed done : Bool}

/-- A call that does not touch the handle. -/
theorem ask_spec {c : Call} (hstep : ∀ b answer, Stands first own fit isOpen claimed done b →
      Stands first own fit isOpen claimed done (b.step (c, answer))) :
    Triple Bus.step (Stands first own fit isOpen claimed done) (ask c)
      (fun _ => Stands first own fit isOpen claimed done) (Failed first own fit) :=
  (Triple.call (fun b r h => hstep b (some r) h) fun b h =>
    ⟨(hstep b none h).kept, fun _ he => by cases he⟩).bind fun _ => Triple.pure fun _ h => h

theorem need_spec {c : Call} {format : String} {P : Bus → Prop} {Q : Bool → Bus → Prop}
    (hask : Triple Bus.step P (ask c) Q (Failed first own fit))
    (hfail : ∀ b, Q false b → Kept first own fit b) :
    Triple Bus.step P (need c format) (fun _ => Q true) (Failed first own fit) := by
  refine hask.bind fun ok => ?_
  cases ok with
  | true => exact Triple.check (fun _ h _ => h) fun _ _ h => absurd rfl h
  | false =>
      exact Triple.check (fun _ _ h => absurd h Bool.false_ne_true) fun b h _ =>
        ⟨hfail b h, fun _ he => by cases he⟩

/-- A call with a device that is open and claimed. -/
theorem work_spec {w : Work} (hw : fit w) :
    Triple Bus.step (Stands first own fit true true done) (ask (.work w))
      (fun _ => Stands first own fit true true true) (Failed first own fit) := by
  have hstep : ∀ b answer, Stands first own fit true true done b →
      Stands first own fit true true true (b.step (.work w, answer)) := by
    intro b answer h
    obtain ⟨d, hd⟩ := Option.isSome_iff_exists.mp h.isOpen
    have hb : b.step (.work w, answer) = { b with worked := b.worked ++ [(w, d)] } := by
      simp only [Bus.step, hd, h.claimed]
    rw [hb]
    refine ⟨⟨h.kept.right, h.kept.first, h.kept.opened, ?_, h.kept.held⟩, h.isOpen, h.claimed,
      by simp⟩
    intro x hx
    rcases List.mem_append.mp hx with hx | hx
    · exact h.kept.worked x hx
    · obtain rfl := List.mem_singleton.mp hx
      exact ⟨h.kept.held d hd, hw⟩
  exact (Triple.call (fun b r h => hstep b (some r) h) fun b h =>
    ⟨(hstep b none h).kept, fun _ he => by cases he⟩).bind fun _ => Triple.pure fun _ h => h

theorem claim_spec :
    Triple Bus.step (Stands first own fit true false done) (ask .claimInterface)
      (fun ok => Stands first own fit true ok done) (Failed first own fit) := by
  refine (Triple.call (Q := fun r => Stands first own fit true r.ok done) (fun b r h => ?_) fun b h =>
    ⟨h.kept, fun _ he => by cases he⟩).bind fun _ => Triple.pure fun _ h => h
  simp only [Bus.step]
  split
  · rename_i hok
    have hheld : b.held.isNone = false := by simp [← Option.not_isSome, h.isOpen]
    refine ⟨⟨?_, h.kept.first, h.kept.opened, h.kept.worked, h.kept.held⟩, h.isOpen, hok.symm,
      h.done⟩
    simp [h.kept.right, hheld]
  · rename_i hok
    rw [Bool.eq_false_iff.mpr hok]
    exact h

theorem close_spec :
    Triple Bus.step (Stands first own fit true claimed done) (ask .closeHandle)
      (fun _ => Stands first own fit false false done) (Failed first own fit) := by
  refine (Triple.call (Q := fun _ => Stands first own fit false false done) (fun b r h => ?_) fun b h =>
    ⟨h.kept, fun _ he => by cases he⟩).bind fun _ => Triple.pure fun _ h => h
  have hheld : b.held.isNone = false := by simp [← Option.not_isSome, h.isOpen]
  refine ⟨⟨?_, h.kept.first, h.kept.opened, h.kept.worked, fun d hd => by cases hd⟩, rfl, rfl,
    h.done⟩
  simp [Bus.step, h.kept.right, hheld]

/-- A listing, kept for the opens behind it. -/
theorem list_kept {b : Bus} (h : Stands first own fit false false done b) (r : Reply) :
    Stands first own fit false false done (b.step (.getDeviceList, some r)) ∧
      (r.ok = true → (b.step (.getDeviceList, some r)).listings.getLast? = some r.devices) := by
  simp only [Bus.step]
  split
  · refine ⟨⟨⟨h.kept.right, fun ds hds => ?_, h.kept.opened, h.kept.worked, h.kept.held⟩, h.isOpen,
      h.claimed, h.done⟩, fun _ => by simp⟩
    have hhead := h.kept.first ds hds
    simp [List.head?_append, hhead]
  · rename_i hok
    exact ⟨h, fun h => absurd h hok⟩

/-- **The loop over the devices** opens one that is accepted, and only
one. -/
theorem openFirst_spec {accept : Descriptor → Bool} (haccept : ∀ d, accept d = true → own d)
    (all : Listing) (ds : Listing) (i : Nat) (hds : all.drop i = ds) :
    Triple Bus.step
      (fun b => Stands first own fit false false done b ∧ b.listings.getLast? = some all)
      (openFirst accept ds i) (fun found => Stands first own fit found false done)
      (Failed first own fit) := by
  induction ds generalizing i with
  | nil => exact Triple.pure fun _ h => h.1
  | cons d ds ih =>
      have hnext : all.drop (i + 1) = ds := by
        rw [← List.drop_drop, hds, List.drop_one, List.tail_cons]
      have hdevice : all[i]? = some d := by
        rw [← List.head?_drop, hds, List.head?_cons]
      cases d with
      | none => exact ih (i + 1) hnext
      | some d =>
          rw [openFirst]
          split
          · rename_i hacc
            refine Triple.bind (Q := fun ok b => if ok then Stands first own fit true false done b
              else Stands first own fit false false done b ∧ b.listings.getLast? = some all) ?_
              fun ok => ?_
            · refine (Triple.call (Q := fun r b => if r.ok then Stands first own fit true false done b
                else Stands first own fit false false done b ∧ b.listings.getLast? = some all)
                (fun b r h => ?_) fun b h => ⟨h.1.kept, fun _ he => by cases he⟩).bind fun r =>
                  Triple.pure fun _ h => h
              obtain ⟨h, hall⟩ := h
              simp only [Bus.step]
              by_cases hok : r.ok = true
              · have hb : b.device i = some d := by
                  simp [Bus.device, hall, hdevice]
                have hnone : b.held = none := Option.not_isSome_iff_eq_none.mp (by simp [h.isOpen])
                rw [if_pos hok, if_pos hok, hb]
                refine ⟨⟨by simp [h.kept.right, hnone], h.kept.first, ?_, ?_, ?_⟩, rfl, rfl, h.done⟩
                · intro e he
                  rcases List.mem_append.mp he with he | he
                  · exact h.kept.opened e he
                  · obtain rfl := List.mem_singleton.mp he
                    exact haccept e hacc
                · intro x hx
                  obtain ⟨hmem, hfit⟩ := h.kept.worked x hx
                  exact ⟨List.mem_append_left _ hmem, hfit⟩
                · intro e he
                  cases he
                  exact List.mem_append_right _ (List.mem_singleton.mpr rfl)
              · rw [if_neg hok, if_neg hok]
                exact ⟨h, hall⟩
            · cases ok with
              | true => exact Triple.pure fun _ h => h
              | false => exact ih (i + 1) hnext
          · exact ih (i + 1) hnext

theorem needDeviceList_spec :
    Triple Bus.step (Stands first own fit false false done) needDeviceList
      (fun ds b => Stands first own fit false false done b ∧ b.listings.getLast? = some ds)
      (Failed first own fit) := by
  refine (Triple.call (Q := fun r b => Stands first own fit false false done b ∧
    (r.ok = true → b.listings.getLast? = some r.devices)) (fun b r h => list_kept h r) fun b h =>
      ⟨h.kept, fun _ he => by cases he⟩).bind fun r => ?_
  exact (Triple.check (M := fun b => Stands first own fit false false done b ∧
    b.listings.getLast? = some r.devices) (fun b h hok => ⟨h.1, h.2 hok⟩) fun b h _ =>
      ⟨h.1.kept, fun _ he => by cases he⟩).bind fun _ => Triple.pure fun _ h => h

theorem usbOpen_spec {vid pid bcd : UInt16} (haccept : ∀ d, usbAccepts vid pid bcd d = true → own d) :
    Triple Bus.step (Stands first own fit false false done) (usbOpen vid pid bcd)
      (fun found => Stands first own fit found found done) (Failed first own fit) := by
  refine needDeviceList_spec.bind fun ds => ?_
  refine (openFirst_spec haccept ds ds 0 rfl).bind fun found => ?_
  cases found with
  | true => exact (need_spec claim_spec fun _ h => h.kept).bind fun _ => Triple.pure fun _ h => h
  | false => exact Triple.pure fun _ h => h

theorem openCaptureDevice_spec (hown : ∀ d, gen1Classify d = true → own d) :
    Triple Bus.step (Stands first own fit false false done) openCaptureDevice
      (fun _ => Stands first own fit true true done) (Failed first own fit) := by
  have hgen1 : ∀ d, usbAccepts 0x1209 0x6688 0x0001 d = true → own d := by
    intro d hd
    refine hown d ?_
    simp only [usbAccepts, Bool.and_eq_true, Bool.or_eq_true] at hd
    obtain ⟨⟨hvid, hpid⟩, hbcd⟩ := hd
    have hbcd' : d.bcdDevice == 0x0001 := by simpa using hbcd
    simp [gen1Classify, hvid, hpid, hbcd']
  have hlegacy : ∀ d, usbAccepts 0x6666 0x6620 0 d = true → own d := by
    intro d hd
    refine hown d ?_
    simp only [usbAccepts, Bool.and_eq_true] at hd
    simp [gen1Classify, hd.1.1, hd.1.2]
  refine (usbOpen_spec hgen1).bind fun found => ?_
  cases found with
  | true => exact Triple.pure fun _ h => h
  | false =>
      refine (usbOpen_spec hlegacy).bind fun found => ?_
      cases found with
      | true => exact Triple.pure fun _ h => h
      | false => exact Triple.stop fun _ h => ⟨h.kept, fun _ he => by cases he⟩

theorem exit_spec :
    Triple Bus.step (Stands first own fit isOpen claimed done) (ask .libusbExit)
      (fun _ => Stands first own fit isOpen claimed done) (Failed first own fit) :=
  ask_spec fun b answer h => by cases answer <;> exact h

theorem usbClose_spec :
    Triple Bus.step (Stands first own fit true claimed done) usbClose
      (fun _ => Stands first own fit false false done) (Failed first own fit) :=
  close_spec.bind fun _ => exit_spec.bind fun _ => Triple.pure fun _ h => h

theorem openAttempts_spec (hown : ∀ d, deviceIsGen2 d = true → own d) (left : Nat) :
    Triple Bus.step (Stands first own fit false false done) (openAttempts left)
      (fun found => Stands first own fit found false done) (Failed first own fit) := by
  induction left with
  | zero => exact Triple.pure fun _ h => h
  | succ left ih =>
      rw [openAttempts]
      refine (Triple.call (Q := fun r b => Stands first own fit false false done b ∧
        (r.ok = true → b.listings.getLast? = some r.devices)) (fun b r h => list_kept h r) fun b h =>
          ⟨h.kept, fun _ he => by cases he⟩).bind fun r => ?_
      split
      · rename_i hok
        refine ((openFirst_spec hown r.devices r.devices 0 rfl).pre fun b h =>
          ⟨h.1, h.2 hok⟩).bind fun found => ?_
        cases found with
        | true => exact Triple.pure fun _ h => h
        | false =>
            by_cases hleft : left ≠ 0
            · simp only [if_pos hleft]
              refine (ask_spec fun b answer h => ?_).bind fun _ => ih
              cases answer <;> exact h
            · simp only [if_neg hleft]
              exact ih
      · exact Triple.pure fun _ h => h.1

theorem tlOpenHandle_spec (hown : ∀ d, deviceIsGen2 d = true → own d) :
    Triple Bus.step (Stands first own fit false false done) tlOpenHandle
      (fun found => Stands first own fit found found done) (Failed first own fit) := by
  refine (openAttempts_spec hown 50).bind fun found => ?_
  cases found with
  | false => exact Triple.pure fun _ h => h
  | true =>
      refine claim_spec.bind fun ok => ?_
      cases ok with
      | true => exact Triple.pure fun _ h => h
      | false => exact close_spec.bind fun _ => Triple.pure fun _ h => h

theorem init_spec :
    Triple Bus.step (Stands first own fit isOpen claimed done) (need .libusbInit "libusb_init(): %s")
      (fun _ => Stands first own fit isOpen claimed done) (Failed first own fit) := by
  refine need_spec (Q := fun _ => Stands first own fit isOpen claimed done) ?_ fun _ h => h.kept
  exact ask_spec fun b answer h => by cases answer <;> exact h

theorem file_spec {name : List UInt8} {format : String} :
    Triple Bus.step (Stands first own fit isOpen claimed done) (need (.file name) format)
      (fun _ => Stands first own fit isOpen claimed done) (Failed first own fit) := by
  refine need_spec (Q := fun _ => Stands first own fit isOpen claimed done) ?_ fun _ h => h.kept
  exact ask_spec fun b answer h => by cases answer <;> exact h

theorem sleep_spec {ms : Nat} :
    Triple Bus.step (Stands first own fit isOpen claimed done) (ask (.sleep ms))
      (fun _ => Stands first own fit isOpen claimed done) (Failed first own fit) :=
  ask_spec fun b answer h => by cases answer <;> exact h

theorem softReset_spec :
    Triple Bus.step (Stands first own fit true claimed done) (ask .softReset)
      (fun _ => Stands first own fit true claimed done) (Failed first own fit) := by
  refine ask_spec fun b answer h => ?_
  cases answer with
  | none => exact h
  | some r =>
      have hheld : b.held.isNone = false := by simp [← Option.not_isSome, h.isOpen]
      refine ⟨⟨?_, h.kept.first, h.kept.opened, h.kept.worked, h.kept.held⟩, h.isOpen, h.claimed,
        h.done⟩
      simp [Bus.step, h.kept.right, hheld]

theorem release_spec :
    Triple Bus.step (Stands first own fit true true done) (ask .releaseInterface)
      (fun _ => Stands first own fit true false done) (Failed first own fit) := by
  refine (Triple.call (Q := fun _ => Stands first own fit true false done) (fun b r h => ?_)
    fun b h => ⟨h.kept, fun _ he => by cases he⟩).bind fun _ => Triple.pure fun _ h => h
  refine ⟨⟨?_, h.kept.first, h.kept.opened, h.kept.worked, h.kept.held⟩, h.isOpen, rfl, h.done⟩
  simp [Bus.step, h.kept.right, h.claimed]

theorem tlOpen_spec (hown : ∀ d, deviceIsGen2 d = true → own d) :
    Triple Bus.step (Stands first own fit false false done) tlOpen
      (fun _ => Stands first own fit true true done) (Failed first own fit) := by
  refine init_spec.bind fun _ => (tlOpenHandle_spec hown).bind fun found => ?_
  cases found with
  | true => exact Triple.pure fun _ h => h
  | false =>
      exact exit_spec.bind fun _ => Triple.stop fun _ h => ⟨h.kept, fun _ he => by cases he⟩

theorem tlResetDevice_spec (hown : ∀ d, deviceIsGen2 d = true → own d) :
    Triple Bus.step (Stands first own fit true true done) tlResetDevice
      (fun found => Stands first own fit found found done) (Failed first own fit) :=
  softReset_spec.bind fun _ => release_spec.bind fun _ => close_spec.bind fun _ =>
    sleep_spec.bind fun _ => tlOpenHandle_spec hown

theorem tlClose_spec :
    Triple Bus.step (Stands first own fit true true done) tlClose
      (fun _ => Stands first own fit false false done) (Failed first own fit) :=
  softReset_spec.bind fun _ => release_spec.bind fun _ => close_spec.bind fun _ =>
    exit_spec.bind fun _ => Triple.pure fun _ h => h

/-- **A gen2 capture** works on gen2 devices only, whichever of them comes
back from the reset, and closes what it opened. -/
theorem runCaptureGen2_spec (hown : ∀ d, deviceIsGen2 d = true → own d)
    (hfit : fit .startup ∧ fit .gen2Session) (fifo : List UInt8) :
    Triple Bus.step (Stands first own fit false false false) (runCaptureGen2 fifo)
      (fun _ => Stands first own fit false false true) (Failed first own fit) := by
  refine file_spec.bind fun _ => (tlOpen_spec hown).bind fun _ => (work_spec hfit.1).bind fun ok => ?_
  have hrest : Triple Bus.step (Stands first own fit true true true)
      (ask (.work .gen2Session) >>= fun _ => tlClose)
      (fun _ => Stands first own fit false false true) (Failed first own fit) :=
    (work_spec hfit.2).bind fun _ => tlClose_spec
  cases ok with
  | true => exact hrest
  | false =>
      refine (tlResetDevice_spec hown).bind fun found => ?_
      refine Triple.bind (Q := fun _ => Stands first own fit true true true) ?_ fun _ =>
        sleep_spec.bind fun _ => (need_spec (work_spec hfit.1) fun _ h => h.kept).bind fun _ => hrest
      cases found with
      | true => exact Triple.check (fun _ h _ => h) fun _ _ h => absurd rfl h
      | false =>
          exact Triple.check (fun _ _ h => absurd h Bool.false_ne_true) fun b h _ =>
            ⟨h.kept, fun _ he => by cases he⟩

theorem runCaptureGen1_spec (hown : ∀ d, gen1Classify d = true → own d) (hfit : fit .gen1Session)
    (fifo : List UInt8) :
    Triple Bus.step (Stands first own fit false false false) (runCaptureGen1 fifo)
      (fun _ => Stands first own fit false false true) (Failed first own fit) :=
  init_spec.bind fun _ => file_spec.bind fun _ => (openCaptureDevice_spec hown).bind fun _ =>
    (work_spec hfit).bind fun _ => usbClose_spec

/-- The maintenance tools work on gen1 devices only. -/
theorem maintCapture_spec (hown : ∀ d, gen1Classify d = true → own d) {w : Work} (hfit : fit w) :
    Triple Bus.step (Stands first own fit false false false) (maintCapture w)
      (fun _ => Stands first own fit false false true) (Failed first own fit) :=
  init_spec.bind fun _ => (openCaptureDevice_spec hown).bind fun _ =>
    (work_spec hfit).bind fun _ => usbClose_spec

theorem maintMcuEeprom_spec (hown : ∀ d, gen1Classify d = true → own d)
    (hfit : fit .traceid ∧ fit .eepromUpload) (name : List UInt8) :
    Triple Bus.step (Stands first own fit false false false) (maintMcuEeprom name)
      (fun _ => Stands first own fit false false true) (Failed first own fit) :=
  init_spec.bind fun _ => (openCaptureDevice_spec hown).bind fun _ => (work_spec hfit.1).bind fun _ =>
    file_spec.bind fun _ => (work_spec hfit.2).bind fun _ => usbClose_spec

theorem maintMcuSram_spec (hown : ∀ d, isFx2lp d = true → own d) (hfit : fit .sramUpload)
    (name : List UInt8) :
    Triple Bus.step (Stands first own fit false false false) (maintMcuSram name)
      (fun _ => Stands first own fit false false true) (Failed first own fit) := by
  have haccept : ∀ d, usbAccepts 0x04B4 0x8613 0 d = true → own d := by
    intro d hd
    refine hown d ?_
    simp only [usbAccepts, Bool.and_eq_true] at hd
    simp [isFx2lp, hd.1.1, hd.1.2]
  refine init_spec.bind fun _ => (usbOpen_spec haccept).bind fun found => ?_
  refine Triple.bind (Q := fun _ => Stands first own fit true true false) ?_ fun _ =>
    file_spec.bind fun _ => (work_spec hfit).bind fun _ => usbClose_spec
  cases found with
  | true => exact Triple.check (fun _ h _ => h) fun _ _ h => absurd rfl h
  | false =>
      exact Triple.check (fun _ _ h => absurd h Bool.false_ne_true) fun b h _ =>
        ⟨h.kept, fun _ he => by cases he⟩

end Specs

/-! ## The whole program -/

/-- The devices an action may open, with the first listing. A capture
looks at what is listed and takes the one generation that is there. -/
def Owned : Action → Option Listing → Descriptor → Prop
  | .capture _ _, first, d => ∃ ds, first = some ds ∧
      ((gen1Classify d = true ∧ Lists gen1Classify ds ∧ ¬ Lists deviceIsGen2 ds) ∨
        (deviceIsGen2 d = true ∧ Lists deviceIsGen2 ds ∧ ¬ Lists gen1Classify ds))
  | .mcuSram _, _, d => isFx2lp d = true
  | .test, _, d | .mcuEeprom _, _, d | .fpgaSram _, _, d | .fpgaFlash _, _, d | .fpgaErase, _, d =>
      gen1Classify d = true
  | .ended _, _, _ | .answered _ _, _, _ | .replay _ _ _, _, _ | .nothing, _, _ => False

/-- What it may do with one. -/
def Fits : Action → Work → Descriptor → Prop
  | .capture _ _, w, d => (gen1Classify d = true ∧ w = .gen1Session) ∨
      (deviceIsGen2 d = true ∧ (w = .startup ∨ w = .gen2Session))
  | .mcuSram _, w, _ => w = .sramUpload
  | .mcuEeprom _, w, _ => w = .traceid ∨ w = .eepromUpload
  | .test, w, _ => w = .speedTest
  | .fpgaSram _, w, _ => w = .fpgaSram
  | .fpgaFlash _, w, _ => w = .fpgaFlash
  | .fpgaErase, w, _ => w = .fpgaErase
  | .ended _, _, _ | .answered _ _, _, _ | .replay _ _ _, _, _ | .nothing, _, _ => False

/-- Whether it is about a device. -/
def usesDevice : Action → Bool
  | .ended _ | .answered _ _ | .replay _ _ _ | .nothing => false
  | _ => true

/-- What an observer has seen of an action. -/
structure Judged (act : Action) (b : Bus) : Prop where
  right : b.wrong = false
  opened : ∀ d ∈ b.opened, Owned act b.listings.head? d
  worked : ∀ x ∈ b.worked, x.2 ∈ b.opened ∧ Fits act x.1 x.2

theorem Kept.judged {first : Option Listing} {own : Descriptor → Prop} {fit : Work → Prop} {b : Bus}
    (h : Kept first own fit b) {act : Action} (hown : ∀ d, own d → Owned act b.listings.head? d)
    (hfit : ∀ w d, fit w → own d → Fits act w d) : Judged act b where
  right := h.right
  opened d hd := hown d (h.opened d hd)
  worked x hx := by
    obtain ⟨hmem, hw⟩ := h.worked x hx
    exact ⟨hmem, hfit _ _ hw (h.opened _ hmem)⟩

theorem stands_initial (own : Descriptor → Prop) (fit : Work → Prop) :
    Stands none own fit false false false Bus.initial := by
  refine ⟨⟨rfl, ?_, ?_, ?_, ?_⟩, rfl, rfl, ?_⟩
  all_goals simp [Bus.initial]

/-- A run that ends well, and one that does not. -/
def Ended (act : Action) (b : Bus) : Prop :=
  Judged act b ∧ b.held = none ∧ (usesDevice act = true → b.worked ≠ [])

def GaveUp (act : Action) (e : Stop) (b : Bus) : Prop :=
  Judged act b ∧ ∀ kind, e = .missing kind → b.opened = [] ∧
    ∃ ds, b.listings.head? = some ds ∧ kind = kindOf ds ∧ kind ≠ .gen1 ∧ kind ≠ .gen2

/-- What the tools need of the specifications. -/
theorem maintenance_run {act : Action} {m : Host Unit} {own : Descriptor → Prop} {fit : Work → Prop}
    (hm : Triple Bus.step (Stands none own fit false false false) m
      (fun _ => Stands none own fit false false true) (Failed none own fit))
    (hown : ∀ first d, own d → Owned act first d) (hfit : ∀ w d, fit w → own d → Fits act w d) :
    Triple Bus.step (· = Bus.initial) m (fun _ => Ended act) (GaveUp act) := by
  refine hm.conseq (fun b hb => hb ▸ stands_initial own fit) (fun _ b h => ?_) fun e b h => ?_
  · refine ⟨h.kept.judged (hown _) hfit, ?_, fun _ => h.done rfl⟩
    exact Option.not_isSome_iff_eq_none.mp (by simp [h.isOpen])
  · exact ⟨h.1.judged (hown _) hfit, fun kind hk => absurd hk (h.2 kind)⟩

/-- The probe leaves its listing behind. -/
theorem deviceProbe_spec (act : Action) :
    Triple Bus.step (· = Bus.initial) deviceProbe
      (fun kind b => ∃ ds, kind = kindOf ds ∧ b = { Bus.initial with listings := [ds] })
      (GaveUp act) := by
  have hjudged : ∀ listings, Judged act { Bus.initial with listings := listings } :=
    fun _ => ⟨rfl, by simp [Bus.initial], by simp [Bus.initial]⟩
  have hgave : ∀ (format : String) listings,
      GaveUp act (.error format) { Bus.initial with listings := listings } :=
    fun _ listings => ⟨hjudged listings, fun _ he => by cases he⟩
  have hexit : ∀ listings, GaveUp act .exited { Bus.initial with listings := listings } :=
    fun listings => ⟨hjudged listings, fun _ he => by cases he⟩
  refine From.bind (From.bind (From.bind (From.call (fun r => From.pure ?_) (hexit []))))
  refine From.check (fun _ => ?_) fun _ => hgave _ []
  refine From.bind (From.bind (From.call (fun r => ?_) (hexit [])))
  refine From.bind (From.check (fun hok => From.pure ?_) fun hok => ?_)
  · have hb : Bus.step Bus.initial (.getDeviceList, some r) =
        { Bus.initial with listings := [r.devices] } := if_pos hok
    change From Bus.step (Bus.step Bus.initial (.getDeviceList, some r)) _ _ _
    rw [hb]
    refine From.bind (From.bind (From.call (fun _ => From.pure (From.pure ?_)) (hexit _)))
    exact ⟨r.devices, rfl, rfl⟩
  · have hb : Bus.step Bus.initial (.getDeviceList, some r) = Bus.initial := if_neg hok
    change GaveUp act _ (Bus.step Bus.initial (.getDeviceList, some r))
    rw [hb]
    exact hgave _ []

theorem kindOf_gen1 {ds : Listing} (h : kindOf ds = .gen1) :
    Lists gen1Classify ds ∧ ¬ Lists deviceIsGen2 ds := by
  rw [kindOf_eq] at h
  grind

theorem kindOf_gen2 {ds : Listing} (h : kindOf ds = .gen2) :
    Lists deviceIsGen2 ds ∧ ¬ Lists gen1Classify ds := by
  rw [kindOf_eq] at h
  grind

theorem runSelectedCapture_spec (o : Options) (fifo : List UInt8) (opts : PacketOpts) :
    Triple Bus.step (· = Bus.initial) (runSelectedCapture o fifo)
      (fun _ => Ended (.capture fifo opts)) (GaveUp (.capture fifo opts)) := by
  -- one engine, from the listing of the probe on
  have hengine : ∀ {ds : Listing} {m : Host Unit} {own : Descriptor → Prop} {fit : Work → Prop},
      Triple Bus.step (Stands (some ds) own fit false false false) m
        (fun _ => Stands (some ds) own fit false false true) (Failed (some ds) own fit) →
      (∀ d, own d → Owned (.capture fifo opts) (some ds) d) →
      (∀ w d, fit w → own d → Fits (.capture fifo opts) w d) →
      From Bus.step { Bus.initial with listings := [ds] } m (fun _ => Ended (.capture fifo opts))
        (GaveUp (.capture fifo opts)) := by
    intro ds m own fit hm hown hfit
    have hstands : Stands (some ds) own fit false false false
        { Bus.initial with listings := [ds] } := by
      refine ⟨⟨rfl, fun ds' h => ?_, ?_, ?_, ?_⟩, rfl, rfl, ?_⟩
      · rw [← h]
        rfl
      all_goals simp [Bus.initial]
    refine hm.conseq (fun b hb => hb ▸ hstands) (fun _ b h => ?_) fun e b h => ?_
    · have hhead := h.kept.first ds rfl
      refine ⟨h.kept.judged (hhead ▸ hown) hfit, ?_, fun _ => h.done rfl⟩
      exact Option.not_isSome_iff_eq_none.mp (by simp [h.isOpen])
    · have hhead := h.1.first ds rfl
      exact ⟨h.1.judged (hhead ▸ hown) hfit, fun kind hk => absurd hk (h.2 kind)⟩
  refine Triple.bind (Q := fun _ b => b = Bus.initial) ?_ fun _ => ?_
  · refine Triple.check (fun _ h _ => h) fun b h _ => ⟨?_, fun _ he => by cases he⟩
    rw [h]
    exact ⟨rfl, by simp [Bus.initial], by simp [Bus.initial]⟩
  refine (deviceProbe_spec (.capture fifo opts)).bind fun kind => Triple.of_from ?_
  rintro b ⟨ds, rfl, rfl⟩
  cases hkind : kindOf ds with
  | gen1 =>
      obtain ⟨hlisted, hother⟩ := kindOf_gen1 hkind
      refine hengine (runCaptureGen1_spec (fun d h => h) rfl fifo)
        (fun d hd => ⟨ds, rfl, Or.inl ⟨hd, hlisted, hother⟩⟩) fun w d hw hd => Or.inl ⟨hd, hw.symm⟩
  | gen2 =>
      obtain ⟨hlisted, hother⟩ := kindOf_gen2 hkind
      refine hengine (runCaptureGen2_spec (fun d h => h) ⟨Or.inl rfl, Or.inr rfl⟩ fifo)
        (fun d hd => ⟨ds, rfl, Or.inr ⟨hd, hlisted, hother⟩⟩) fun w d hw hd => Or.inr ⟨hd, hw⟩
  | _ =>
      refine Triple.stop fun b hb => ?_
      rw [hb]
      refine ⟨⟨rfl, by simp [Bus.initial], by simp [Bus.initial]⟩, fun kind he => ?_⟩
      cases he
      exact ⟨rfl, ds, rfl, hkind.symm, by simp, by simp⟩

theorem perform_spec (p : Parsed) :
    Triple Bus.step (· = Bus.initial) (perform p) (fun _ => Ended p.action) (GaveUp p.action) := by
  have hidle : ∀ act, Judged act Bus.initial := fun act =>
    ⟨rfl, by simp [Bus.initial], by simp [Bus.initial]⟩
  -- nothing is opened
  have hnone : ∀ {act : Action}, usesDevice act = false →
      From Bus.step Bus.initial (pure () : Host Unit) (fun _ => Ended act) (GaveUp act) :=
    fun hact => From.pure ⟨hidle _, rfl, fun h => by simp [hact] at h⟩
  rw [perform]
  cases p.action with
  | ended how => exact Triple.stop fun b hb => ⟨hb ▸ hidle _, fun _ he => by cases he⟩
  | answered stdout log => exact hnone rfl
  | nothing => exact hnone rfl
  | replay file out opts =>
      have hfiles : Triple Bus.step (Stands none (fun _ => False) (fun _ => False) false false false)
          (runReplay file out) _ _ := file_spec.bind fun _ => file_spec
      refine hfiles.conseq (fun b hb => hb ▸ stands_initial _ _) (fun _ b h => ?_) fun e b h => ?_
      · refine ⟨h.kept.judged (fun d hd => hd.elim) fun _ _ hw => hw.elim, ?_, by simp [usesDevice]⟩
        exact Option.not_isSome_iff_eq_none.mp (by simp [h.isOpen])
      · exact ⟨h.1.judged (fun d hd => hd.elim) fun _ _ hw => hw.elim,
          fun kind hk => absurd hk (h.2 kind)⟩
  | capture fifo opts => exact runSelectedCapture_spec p.options fifo opts
  | test =>
      exact maintenance_run (maintCapture_spec (fun d h => h) rfl) (fun _ d h => h)
        fun w d hw _ => hw.symm
  | mcuSram name =>
      exact maintenance_run (maintMcuSram_spec (fun d h => h) rfl name) (fun _ d h => h)
        fun w d hw _ => hw.symm
  | mcuEeprom name =>
      exact maintenance_run (maintMcuEeprom_spec (fun d h => h) ⟨Or.inl rfl, Or.inr rfl⟩ name)
        (fun _ d h => h) fun w d hw _ => hw
  | fpgaSram name =>
      exact maintenance_run (file_spec.bind fun _ => maintCapture_spec (fun d h => h) rfl)
        (fun _ d h => h) fun w d hw _ => hw.symm
  | fpgaFlash name =>
      exact maintenance_run (file_spec.bind fun _ => maintCapture_spec (fun d h => h) rfl)
        (fun _ d h => h) fun w d hw _ => hw.symm
  | fpgaErase =>
      exact maintenance_run (maintCapture_spec (fun d h => h) rfl) (fun _ d h => h)
        fun w d hw _ => hw.symm

/-- **What the program does with the devices on the bus**, whatever the
command line and whatever the bus. A query, a wrong command line and a
replay open nothing. A capture opens devices of one generation, the only
one that was listed when it looked, and gives up without opening any if
none or both were; a bare FX2LP is opened only to load its firmware, and
the other tools open gen1 devices only. Each action does its own work and
no other, with a device whose interface is claimed; there is never a
second handle, and none is left when the program ends well. -/
theorem main_devices (args : List CString) (peer : Peer Call Reply) :
    let r := (main args).run peer
    let b := r.2.foldl Bus.step .initial
    Judged (mainAction args) b ∧
    (r.1 = .ok () → b.held = none ∧ (usesDevice (mainAction args) = true → b.worked ≠ [])) ∧
    ∀ kind, r.1 = .error (.missing kind) → b.opened = [] ∧
      ∃ ds, b.listings.head? = some ds ∧ kind = kindOf ds ∧ kind ≠ .gen1 ∧ kind ≠ .gen2 := by
  intro r b
  have hspec : Triple Bus.step (· = Bus.initial) (main args) (fun _ => Ended (mainAction args))
      (GaveUp (mainAction args)) := by
    rw [main, mainAction]
    cases parseCommandLine args with
    | error how =>
        refine Triple.stop fun b hb => ⟨?_, fun _ he => by cases he⟩
        rw [hb]
        exact ⟨rfl, by simp [Bus.initial], by simp [Bus.initial]⟩
    | ok p => exact perform_spec p
  obtain ⟨hok, herror⟩ := hspec.run peer rfl
  rcases hr : r.1 with e | x
  · obtain ⟨hjudged, hmissing⟩ := herror e hr
    refine ⟨hjudged, fun h => (by cases h), fun kind he => ?_⟩
    cases he
    exact hmissing kind rfl
  · obtain ⟨hjudged, hheld, hworked⟩ := hok x hr
    exact ⟨hjudged, fun _ => ⟨hheld, hworked⟩, fun kind he => by cases he⟩

/-- A board of the second generation. -/
def gen2Board : Descriptor := ⟨0x1209, 0x6688, 0x0602⟩

/-- The board stands behind a hub and a device that cannot be read, and
answers only after a reset. -/
def hungBoard : Peer Call Reply := fun log c =>
  some ⟨c ≠ .work .startup ∨ ∃ e ∈ log, e.1 = .softReset,
    [none, some ⟨0x1d6b, 2, 0x0510⟩, some gen2Board]⟩

theorem main_devices_hungBoard :
    let args := chosenPieces.flatMap Piece.args
    let r := (main args).run hungBoard
    let b := r.2.foldl Bus.step .initial
    r.1 = .ok () ∧ Judged (mainAction args) b ∧ b.held = none ∧
      b.worked = [(.startup, gen2Board), (.startup, gen2Board), (.gen2Session, gen2Board)] := by
  have hok : ((main (chosenPieces.flatMap Piece.args)).run hungBoard).1 = .ok () := by
    decide +kernel
  have hworked : (((main (chosenPieces.flatMap Piece.args)).run hungBoard).2.foldl Bus.step
      .initial).worked =
      [(.startup, gen2Board), (.startup, gen2Board), (.gen2Session, gen2Board)] := by
    decide +kernel
  obtain ⟨hjudged, hend, -⟩ := main_devices (chosenPieces.flatMap Piece.args) hungBoard
  exact ⟨hok, hjudged, (hend hok).1, hworked⟩

end UsbSniffer.Devices
