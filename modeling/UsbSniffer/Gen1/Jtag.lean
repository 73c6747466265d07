import UsbSniffer.Lib.Tap

/-!
# JTAG through the first generation's microcontroller

The transactions of `gen1/fpga.c` and the two USB requests of
`gen1/usb.c` they are made of. Symbols are collected in a batch of at
most 255, which is sent packed, four to a byte, whenever it is full or
somebody asks for it; a batch may end anywhere in a scan.

The firmware clocks the symbols of every request in order. So what the
port of the FPGA sees is the symbols of the requests, whatever the
batches (`clocked`); `run_transactions` says that they are the symbols
of the calls, and what they do to the port.
-/

namespace UsbSniffer.Gen1.Jtag

open Lib.Tap

/-- `MAX_COUNT_IN_REQUEST`. -/
def maxCountInRequest : Nat := 255

/-- What reaches the microcontroller: a request with its count and
bytes, the fetch of a response, or a failed assertion, where the program
stops. -/
inductive UsbCall where
  | request (count : Nat) (buf : List UInt8)
  | response (count : Nat)
  | assertFailed
deriving Repr, DecidableEq

/-- `buf[i / 4] |= (data[i] << ((i % 4) * 2))` for the first symbols. -/
def packFields (data : List UInt8) (count : Nat) : List UInt8 :=
  (List.range count).foldl
    (fun buf i =>
      buf.set (i / 4) (buf.getD (i / 4) 0 ||| (data.getD i 0 <<< UInt8.ofNat (i % 4 * 2))))
    (List.replicate 64 0)

/-- `usb_jtag_request`. -/
def usbJtagRequest (data : List UInt8) : UsbCall :=
  if 0 < data.length ∧ data.length ≤ maxCountInRequest then
    .request data.length ((packFields data data.length).take ((data.length + 3) / 4))
  else .assertFailed

/-- `usb_jtag_response`. -/
def usbJtagResponse (count : Nat) : UsbCall :=
  if count ≤ maxCountInRequest then .response count else .assertFailed

/-- `g_jtag_buf` up to `g_jtag_count`, and the requests so far. -/
structure Batch where
  buf : List UInt8
  calls : List UsbCall
deriving Repr, DecidableEq

/-- Nothing collected, nothing sent. -/
def Batch.empty : Batch := ⟨[], []⟩

/-- `jtag_sync`. -/
def jtagSync (s : Batch) : Batch :=
  if s.buf.length ≠ 0 then { buf := [], calls := s.calls ++ [usbJtagRequest s.buf] } else s

/-- `jtag_clk`. -/
def jtagClk (s : Batch) (tdi tms : UInt8) : Batch :=
  let s := { s with buf := s.buf ++ [(tdi <<< 1) ||| tms] }
  if maxCountInRequest = s.buf.length then jtagSync s else s

/-- `i == n`, as a C int. -/
def isEq (i n : Nat) : UInt8 := if i = n then 1 else 0

/-- `jtag_write_ir`. -/
def jtagWriteIr (s : Batch) (ir : UInt32) : Batch :=
  let s := jtagClk s 0 1
  let s := jtagClk s 0 1
  let s := jtagClk s 0 0
  let s := jtagClk s 0 0
  let s := (List.range 8).foldl
    (fun s i => jtagClk s ((ir >>> UInt32.ofNat i) &&& 1).toUInt8 (isEq i 7)) s
  let s := jtagClk s 0 1
  jtagClk s 0 0

/-- `jtag_write_dr`. -/
def jtagWriteDr (s : Batch) (data : Nat → UInt8) (size : Nat) : Batch :=
  let s := jtagClk s 0 1
  let s := jtagClk s 0 0
  let s := jtagClk s 0 0
  let s := (List.range size).foldl
    (fun s i => jtagClk s ((data (i / 8) >>> UInt8.ofNat (i % 8)) &&& 1) (isEq i (size - 1))) s
  let s := jtagClk s 0 1
  jtagClk s 0 0

/-- `jtag_read_dr`. -/
def jtagReadDr (s : Batch) (size : Nat) : Batch :=
  let s := jtagClk s 0 1
  let s := jtagClk s 0 0
  let s := jtagClk s 0 0
  let s := jtagSync s
  let s := (List.range size).foldl (fun s i => jtagClk s 0 (isEq i (size - 1))) s
  let s := jtagSync s
  let s := { s with calls := s.calls ++ [usbJtagResponse size] }
  let s := jtagClk s 0 1
  jtagClk s 0 0

/-- `jtag_run`. -/
def jtagRun (s : Batch) (count : Nat) : Batch :=
  (List.range count).foldl (fun s _ => jtagClk s 0 0) s

/-- The transactions. -/
inductive Call where
  | writeIr (ir : UInt32)
  | writeDr (data : Nat → UInt8) (size : Nat)
  | readDr (size : Nat)
  | run (count : Nat)
  | sync

def exec (s : Batch) : Call → Batch
  | .writeIr ir => jtagWriteIr s ir
  | .writeDr data size => jtagWriteDr s data size
  | .readDr size => jtagReadDr s size
  | .run count => jtagRun s count
  | .sync => jtagSync s

/-- Some transactions one after another. -/
def execAll (s : Batch) (calls : List Call) : Batch := calls.foldl exec s

/-! ## What the calls ask for -/

/-- The low eight bits of an instruction, the lowest first. -/
def irBits (ir : UInt32) : List Bool := (List.range 8).map ir.toNat.testBit

/-- The data bits, the lowest of each byte first. -/
def drBits (data : Nat → UInt8) (size : Nat) : List Bool :=
  (List.range size).map (fun i => (data (i / 8)).toNat.testBit (i % 8))

/-- The symbols of a call. -/
def Call.syms : Call → List Sym
  | .writeIr ir => irScan (irBits ir)
  | .writeDr data size => drScan (drBits data size)
  | .readDr size => drScan (List.replicate size false)
  | .run count => List.replicate count ⟨false, false⟩
  | .sync => []

/-- What a call updates. -/
def Call.updates : Call → List Update
  | .writeIr ir => [.ir (irBits ir)]
  | .writeDr data size => [.dr (drBits data size)]
  | .readDr size => [.dr (List.replicate size false)]
  | .run _ => []
  | .sync => []

/-- The sizes the transactions are called with. -/
def Call.Sized : Call → Prop
  | .writeDr _ size => 1 ≤ size
  | .readDr size => 1 ≤ size ∧ size ≤ 255
  | .writeIr _ => True
  | .run _ => True
  | .sync => True

/-! ## What the firmware clocks -/

/-- Field `i` of a packed request. -/
def field (buf : List UInt8) (i : Nat) : UInt8 :=
  (buf.getD (i / 4) 0 >>> UInt8.ofNat (i % 4 * 2)) &&& 3

/-- A field as a symbol. -/
def toSym (b : UInt8) : Sym := ⟨b &&& 2 ≠ 0, b &&& 1 ≠ 0⟩

/-- The symbols of a request: its first `count` fields in order. -/
def unpack (count : Nat) (buf : List UInt8) : List Sym :=
  (List.range count).map (fun i => toSym (field buf i))

/-- The symbols of what reaches the microcontroller. -/
def UsbCall.clocked : UsbCall → List Sym
  | .request count buf => unpack count buf
  | .response _ => []
  | .assertFailed => []

def clocked (calls : List UsbCall) : List Sym := calls.flatMap UsbCall.clocked

/-! ## Packing -/

/-- One of the four fields of a byte. -/
def slot (b : UInt8) (m : Nat) : UInt8 := (b >>> UInt8.ofNat (m * 2)) &&& 3

theorem slot_or (a b : UInt8) (m : Nat) : slot (a ||| b) m = slot a m ||| slot b m := by
  apply UInt8.toBitVec_inj.mp
  simp only [slot, UInt8.toBitVec_and, UInt8.toBitVec_or, UInt8.toBitVec_shiftRight]
  ext i hi
  simp [Bool.and_or_distrib_right]

theorem slot_shiftLeft {d : UInt8} (hd : d < 4) {m k : Nat} (hm : m < 4) (hk : k < 4) :
    slot (d <<< UInt8.ofNat (m * 2)) k = if k = m then d else 0 := by
  have hall : ∀ d m k : Fin 4, slot (UInt8.ofNat d <<< UInt8.ofNat (m * 2)) k =
      if k = m then UInt8.ofNat d else 0 := by decide
  have hd' : d.toNat < 4 := UInt8.lt_iff_toNat_lt.mp hd
  have h := hall ⟨d.toNat, hd'⟩ ⟨m, hm⟩ ⟨k, hk⟩
  simp only [UInt8.ofNat_toNat, Fin.mk.injEq] at h
  exact h

/-- The symbols packed so far, and zeros behind them. -/
theorem field_packFields {data : List UInt8} (hdata : ∀ b ∈ data, b < 4) {count : Nat}
    (hcount : count ≤ 255) (hlen : count ≤ data.length) :
    (packFields data count).length = 64 ∧
      ∀ j < 256, field (packFields data count) j = if j < count then data.getD j 0 else 0 := by
  induction count with
  | zero =>
      refine ⟨rfl, ?_⟩
      intro j hj
      have hzero : (List.replicate 64 (0 : UInt8)).getD (j / 4) 0 = 0 := by
        rw [List.getD_eq_getElem?_getD, List.getElem?_replicate]
        split
        · rfl
        · rfl
      show (((List.replicate 64 (0 : UInt8)).getD (j / 4) 0) >>> _) &&& 3 = _
      rw [hzero, if_neg (Nat.not_lt_zero j)]
      simp
  | succ i ih =>
      obtain ⟨hsize, hfields⟩ := ih (by omega) (by omega)
      have hstep : packFields data (i + 1) = (packFields data i).set (i / 4)
          ((packFields data i).getD (i / 4) 0 ||| (data.getD i 0 <<< UInt8.ofNat (i % 4 * 2))) := by
        rw [packFields, List.range_succ, List.foldl_append]
        rfl
      have hd : data.getD i 0 < 4 := by
        rw [List.getD_eq_getElem?_getD, List.getElem?_eq_getElem (by omega)]
        exact hdata _ (List.getElem_mem _)
      refine ⟨by rw [hstep, List.length_set, hsize], ?_⟩
      intro j hj
      have hj' : field (packFields data i) j = slot ((packFields data i).getD (j / 4) 0) (j % 4) := rfl
      have hold := hfields j hj
      show slot ((packFields data (i + 1)).getD (j / 4) 0) (j % 4) = _
      rw [hstep, List.getD_eq_getElem?_getD, List.getElem?_set]
      by_cases hbyte : i / 4 = j / 4
      · rw [if_pos hbyte, if_pos (by omega), Option.getD_some, slot_or,
          slot_shiftLeft hd (Nat.mod_lt _ (by omega)) (Nat.mod_lt _ (by omega)), hbyte, ← hj', hold]
        by_cases heq : j = i
        · subst heq
          rw [if_neg (lt_irrefl j), if_pos rfl, if_pos (Nat.lt_succ_self j)]
          exact UInt8.zero_or
        · have hslot : ¬ j % 4 = i % 4 := by omega
          rw [if_neg hslot, UInt8.or_zero]
          exact if_congr (by omega) rfl rfl
      · have hne : j ≠ i := by
          intro h
          exact hbyte (by rw [h])
        rw [if_neg hbyte, ← List.getD_eq_getElem?_getD, ← hj', hold]
        exact if_congr (by omega) rfl rfl

/-- **A request carries the symbols of its batch.** -/
theorem usbJtagRequest_spec {data : List UInt8} (hdata : ∀ b ∈ data, b < 4)
    (hpos : 0 < data.length) (hlen : data.length ≤ 255) :
    ∃ buf, usbJtagRequest data = .request data.length buf ∧
      unpack data.length buf = data.map toSym := by
  obtain ⟨hsize, hfields⟩ := field_packFields hdata hlen (le_refl _)
  refine ⟨_, if_pos ⟨hpos, hlen⟩, ?_⟩
  apply List.ext_getElem
  · simp [unpack]
  · intro i hi hi'
    rw [List.length_map] at hi'
    have htake : field ((packFields data data.length).take ((data.length + 3) / 4)) i =
        field (packFields data data.length) i := by
      rw [field, field, List.getD_eq_getElem?_getD, List.getD_eq_getElem?_getD,
        List.getElem?_take_of_lt (by omega)]
    have hget := hfields i (by omega)
    rw [if_pos hi', List.getD_eq_getElem?_getD, List.getElem?_eq_getElem hi', Option.getD_some]
      at hget
    simp only [unpack, List.getElem_map, List.getElem_range, htake, hget]

/-! ## Batches -/

/-- A bit as a C int. -/
def ofBool (b : Bool) : UInt8 := if b then 1 else 0

/-- `jtag_clk` for a symbol. -/
def clk (s : Batch) (y : Sym) : Batch := jtagClk s (ofBool y.tdi) (ofBool y.tms)

def clks (s : Batch) (ys : List Sym) : Batch := ys.foldl clk s

@[simp] theorem clks_nil (s : Batch) : clks s [] = s := rfl

@[simp] theorem clks_cons (s : Batch) (y : Sym) (ys : List Sym) :
    clks s (y :: ys) = clks (clk s y) ys := rfl

theorem clks_append (s : Batch) (xs ys : List Sym) : clks s (xs ++ ys) = clks (clks s xs) ys :=
  List.foldl_append

/-- Everything clocked into the batches so far. -/
def Batch.syms (s : Batch) : List Sym := clocked s.calls ++ s.buf.map toSym

/-- A batch with room, and requests that were in order. -/
structure Batch.Good (s : Batch) : Prop where
  room : s.buf.length < 255
  fields : ∀ b ∈ s.buf, b < 4
  calls : ∀ c ∈ s.calls, c ≠ .assertFailed

theorem clocked_append (xs ys : List UsbCall) : clocked (xs ++ ys) = clocked xs ++ clocked ys :=
  List.flatMap_append

theorem clocked_singleton (c : UsbCall) : clocked [c] = c.clocked := List.append_nil _

/-- Sending a batch keeps its symbols. -/
theorem send_spec {s : Batch} (hlen : s.buf.length ≤ 255) (hfields : ∀ b ∈ s.buf, b < 4)
    (hcalls : ∀ c ∈ s.calls, c ≠ .assertFailed) :
    (jtagSync s).Good ∧ (jtagSync s).buf = [] ∧ (jtagSync s).syms = s.syms := by
  by_cases hempty : s.buf.length ≠ 0
  · obtain ⟨buf, hrequest, hunpack⟩ :=
      usbJtagRequest_spec hfields (Nat.pos_of_ne_zero hempty) hlen
    have hsync : jtagSync s = { buf := [], calls := s.calls ++ [usbJtagRequest s.buf] } :=
      if_pos hempty
    rw [hsync]
    refine ⟨⟨show 0 < 255 by omega, fun b hb => (by cases hb), ?_⟩, rfl, ?_⟩
    · intro c hc
      rw [List.mem_append, List.mem_singleton] at hc
      obtain hc | rfl := hc
      · exact hcalls c hc
      · rw [hrequest]
        exact UsbCall.noConfusion
    · show clocked (s.calls ++ [usbJtagRequest s.buf]) ++ [] = clocked s.calls ++ s.buf.map toSym
      rw [clocked_append, clocked_singleton, hrequest, UsbCall.clocked, hunpack, List.append_nil]
  · have hnil : s.buf = [] := List.eq_nil_of_length_eq_zero (not_not.mp hempty)
    have hsync : jtagSync s = s := if_neg hempty
    rw [hsync]
    exact ⟨⟨by rw [hnil]; decide, hfields, hcalls⟩, hnil, rfl⟩

theorem ofBool_cases (y : Sym) :
    (ofBool y.tdi <<< 1 ||| ofBool y.tms) < 4 ∧
      toSym (ofBool y.tdi <<< 1 ||| ofBool y.tms) = y := by
  obtain ⟨a, b⟩ := y
  cases a <;> cases b <;> decide

/-- **A clock adds its symbol**, whether it fills the batch or not. -/
theorem clk_spec {s : Batch} (h : s.Good) (y : Sym) :
    (clk s y).Good ∧ (clk s y).syms = s.syms ++ [y] := by
  obtain ⟨hlt, hsym⟩ := ofBool_cases y
  have hroom := h.room
  generalize hput :
    ({ s with buf := s.buf ++ [ofBool y.tdi <<< 1 ||| ofBool y.tms] } : Batch) = s'
  have hlen : s'.buf.length = s.buf.length + 1 := by
    rw [← hput]
    exact List.length_append
  have hfields : ∀ b ∈ s'.buf, b < 4 := by
    rw [← hput]
    intro b hb
    obtain hb | hb := List.mem_append.mp hb
    · exact h.fields b hb
    · rw [List.mem_singleton.mp hb]
      exact hlt
  have hcalls : ∀ c ∈ s'.calls, c ≠ .assertFailed := by
    rw [← hput]
    exact h.calls
  have hsyms : s'.syms = s.syms ++ [y] := by
    rw [← hput]
    simp only [Batch.syms, List.map_append, List.map_cons, List.map_nil, hsym, List.append_assoc]
  have hclk : clk s y = if maxCountInRequest = s'.buf.length then jtagSync s' else s' := by
    rw [← hput]
    rfl
  have hmax : maxCountInRequest = 255 := rfl
  rw [hclk]
  by_cases hfull : maxCountInRequest = s'.buf.length
  · rw [if_pos hfull]
    obtain ⟨hgood, -, hsent⟩ := send_spec (by omega) hfields hcalls
    exact ⟨hgood, hsent.trans hsyms⟩
  · rw [if_neg hfull]
    exact ⟨⟨by omega, hfields, hcalls⟩, hsyms⟩

theorem clks_spec {s : Batch} (h : s.Good) (ys : List Sym) :
    (clks s ys).Good ∧ (clks s ys).syms = s.syms ++ ys := by
  induction ys generalizing s with
  | nil => exact ⟨h, (List.append_nil _).symm⟩
  | cons y ys ih =>
      obtain ⟨hgood, hsyms⟩ := clk_spec h y
      obtain ⟨hgood', hsyms'⟩ := ih hgood
      exact ⟨hgood', by rw [clks_cons, hsyms', hsyms, List.append_assoc, List.singleton_append]⟩

theorem sync_spec {s : Batch} (h : s.Good) :
    (jtagSync s).Good ∧ (jtagSync s).buf = [] ∧ (jtagSync s).syms = s.syms :=
  send_spec (Nat.le_of_lt h.room) h.fields h.calls

/-- Below a full batch clocks only collect. -/
theorem clks_collect {s : Batch} {ys : List Sym} (h : s.buf.length + ys.length < 255) :
    clks s ys =
      { s with buf := s.buf ++ ys.map (fun y => ofBool y.tdi <<< 1 ||| ofBool y.tms) } := by
  induction ys generalizing s with
  | nil => simp
  | cons y ys ih =>
      rw [List.length_cons] at h
      have hclk : clk s y = { s with buf := s.buf ++ [ofBool y.tdi <<< 1 ||| ofBool y.tms] } := by
        have hmax : maxCountInRequest = 255 := rfl
        rw [clk, jtagClk]
        exact if_neg (by rw [hmax, List.length_append, List.length_singleton]; omega)
      rw [clks_cons, hclk, ih (by rw [List.length_append, List.length_singleton]; omega)]
      simp

/-- **A batch of its own**: clocks behind an empty batch, as many as fit,
are sent in one request. -/
theorem sync_clks {s : Batch} (hempty : s.buf = []) {ys : List Sym} (hpos : ys ≠ [])
    (hlen : ys.length ≤ 255) :
    jtagSync (clks s ys) =
      { buf := [], calls := s.calls ++
        [usbJtagRequest (ys.map (fun y => ofBool y.tdi <<< 1 ||| ofBool y.tms))] } := by
  have hy : 0 < ys.length := List.length_pos_iff.mpr hpos
  by_cases hfull : ys.length = 255
  · -- the last clock sends the batch, and there is nothing left to send
    obtain ⟨zs, y, rfl⟩ : ∃ zs y, ys = zs ++ [y] :=
      ⟨_, _, (List.dropLast_append_getLast hpos).symm⟩
    rw [List.length_append, List.length_singleton] at hfull
    have hroom : s.buf.length + zs.length < 255 := by
      rw [hempty, List.length_nil]
      omega
    have hcollect := clks_collect hroom
    rw [clks_append, hcollect, hempty, List.nil_append, clks_cons, clks_nil, clk, jtagClk]
    have hcount : maxCountInRequest = (zs.map (fun y => ofBool y.tdi <<< 1 ||| ofBool y.tms) ++
        [ofBool y.tdi <<< 1 ||| ofBool y.tms]).length := by
      rw [List.length_append, List.length_map, List.length_singleton, hfull]
      rfl
    rw [if_pos hcount]
    simp [jtagSync]
  · rw [clks_collect (by rw [hempty, List.length_nil]; omega), hempty, List.nil_append, jtagSync,
      if_pos (by rw [List.length_map]; omega)]

/-! ## The transactions -/

/-- A shift loop of the source. -/
theorem shiftLoop_eq (s : Batch) (n : Nat) (tdi : Nat → UInt8) (bit : Nat → Bool)
    (htdi : ∀ i < n, tdi i = ofBool (bit i)) :
    (List.range n).foldl (fun s i => jtagClk s (tdi i) (isEq i (n - 1))) s =
      clks s (shiftSyms ((List.range n).map bit)) := by
  rw [← shiftSyms_range, clks, List.foldl_map]
  apply List.foldl_ext
  intro s i hi
  rw [htdi i (List.mem_range.mp hi), clk, isEq]
  by_cases hlast : i = n - 1
  · rw [if_pos hlast]
    simp [hlast, ofBool]
  · rw [if_neg hlast]
    simp [hlast, ofBool]

/-- `(x >> i) & 1` as a bit. -/
theorem shift_and_one (x i : Nat) : x >>> i &&& 1 = if x.testBit i then 1 else 0 := by
  rw [Nat.and_one_is_mod, Nat.shiftRight_eq_div_pow, ← Nat.toNat_testBit]
  cases x.testBit i <;> rfl

theorem irBit_eq (ir : UInt32) {i : Nat} (hi : i < 8) :
    ((ir >>> UInt32.ofNat i) &&& 1).toUInt8 = ofBool (ir.toNat.testBit i) := by
  have hshift : (UInt32.ofNat i).toNat % 32 = i := by
    rw [UInt32.toNat_ofNat_of_lt' (by simp only [UInt32.size]; omega), Nat.mod_eq_of_lt (by omega)]
  apply UInt8.toNat_inj.mp
  rw [UInt32.toNat_toUInt8, UInt32.toNat_and, UInt32.toNat_shiftRight, hshift]
  show (ir.toNat >>> i &&& 1) % 2 ^ 8 = _
  rw [shift_and_one]
  cases ir.toNat.testBit i <;> rfl

theorem drBit_eq (b : UInt8) {i : Nat} (hi : i < 8) :
    (b >>> UInt8.ofNat i) &&& 1 = ofBool (b.toNat.testBit i) := by
  have hshift : (UInt8.ofNat i).toNat % 8 = i := by
    rw [UInt8.toNat_ofNat_of_lt' (by simp only [UInt8.size]; omega), Nat.mod_eq_of_lt hi]
  apply UInt8.toNat_inj.mp
  rw [UInt8.toNat_and, UInt8.toNat_shiftRight, hshift]
  show b.toNat >>> i &&& 1 = _
  rw [shift_and_one]
  cases b.toNat.testBit i <;> rfl

/-- The two clocks with constants. -/
theorem jtagClk_mode (s : Batch) : jtagClk s 0 1 = clk s ⟨false, true⟩ := rfl

theorem jtagClk_idle (s : Batch) : jtagClk s 0 0 = clk s ⟨false, false⟩ := rfl

theorem jtagWriteIr_eq (s : Batch) (ir : UInt32) :
    jtagWriteIr s ir = clks s (irScan (irBits ir)) := by
  have hloop := shiftLoop_eq (clks s [⟨false, true⟩, ⟨false, true⟩, ⟨false, false⟩, ⟨false, false⟩])
    8 (fun i => ((ir >>> UInt32.ofNat i) &&& 1).toUInt8) ir.toNat.testBit
    (fun i hi => irBit_eq ir hi)
  rw [show 8 - 1 = 7 from rfl] at hloop
  rw [irScan, clks_append, clks_append, irBits, ← hloop]
  simp only [jtagWriteIr, jtagClk_mode, jtagClk_idle, clks_cons, clks_nil]

theorem jtagWriteDr_eq (s : Batch) (data : Nat → UInt8) (size : Nat) :
    jtagWriteDr s data size = clks s (drScan (drBits data size)) := by
  have hloop := shiftLoop_eq (clks s [⟨false, true⟩, ⟨false, false⟩, ⟨false, false⟩])
    size (fun i => (data (i / 8) >>> UInt8.ofNat (i % 8)) &&& 1)
    (fun i => (data (i / 8)).toNat.testBit (i % 8))
    (fun i _ => drBit_eq (data (i / 8)) (Nat.mod_lt i (by omega)))
  rw [drScan, clks_append, clks_append, drBits, ← hloop]
  simp only [jtagWriteDr, jtagClk_mode, jtagClk_idle, clks_cons, clks_nil]

theorem jtagRun_eq (s : Batch) (count : Nat) :
    jtagRun s count = clks s (List.replicate count ⟨false, false⟩) := by
  induction count with
  | zero => rfl
  | succ n ih =>
      rw [List.replicate_succ', clks_append, ← ih, jtagRun, List.range_succ, List.foldl_append]
      rfl

/-- What a read sends: its shift symbols in one request, and right
behind it the fetch of the response. -/
def readCalls (size : Nat) : List UsbCall :=
  [usbJtagRequest
      ((shiftSyms (List.replicate size false)).map (fun y => ofBool y.tdi <<< 1 ||| ofBool y.tms)),
    .response size]

/-- The batch between the two halves of a read. -/
theorem jtagReadDr_eq (s : Batch) {size : Nat} (hpos : 1 ≤ size) (hle : size ≤ 255) :
    jtagReadDr s size =
      clks
        { buf := []
          calls := (jtagSync (clks s [⟨false, true⟩, ⟨false, false⟩, ⟨false, false⟩])).calls ++
            readCalls size }
        [⟨false, true⟩, ⟨false, false⟩] := by
  have hempty : (jtagSync (clks s [⟨false, true⟩, ⟨false, false⟩, ⟨false, false⟩])).buf = [] := by
    rw [jtagSync]
    split
    · rfl
    · rename_i hzero
      exact List.eq_nil_of_length_eq_zero (not_not.mp hzero)
  have hbits : (List.range size).map (fun _ => false) = List.replicate size false := by
    rw [List.map_const', List.length_range]
  have hloop := shiftLoop_eq (jtagSync (clks s [⟨false, true⟩, ⟨false, false⟩, ⟨false, false⟩]))
    size (fun _ => 0) (fun _ => false) (fun _ _ => rfl)
  rw [hbits] at hloop
  have hlen : (shiftSyms (List.replicate size false)).length = size := by
    rw [shiftSyms_length, List.length_replicate]
  have hne : shiftSyms (List.replicate size false) ≠ [] := by
    apply List.ne_nil_of_length_pos
    omega
  have hsync := sync_clks hempty hne (by omega)
  have hresponse : usbJtagResponse size = .response size := if_pos hle
  have hread : jtagReadDr s size =
      clks
        { jtagSync ((List.range size).foldl (fun s i => jtagClk s 0 (isEq i (size - 1)))
            (jtagSync (clks s [⟨false, true⟩, ⟨false, false⟩, ⟨false, false⟩]))) with
          calls := (jtagSync ((List.range size).foldl (fun s i => jtagClk s 0 (isEq i (size - 1)))
            (jtagSync (clks s [⟨false, true⟩, ⟨false, false⟩, ⟨false, false⟩])))).calls ++
              [usbJtagResponse size] }
        [⟨false, true⟩, ⟨false, false⟩] := by
    simp only [jtagReadDr, jtagClk_mode, jtagClk_idle, clks_cons, clks_nil]
  rw [hread, hloop, hsync, hresponse, readCalls]
  simp only [List.append_assoc, List.cons_append, List.nil_append]

/-! ## Sequences of transactions -/

/-- The fetches of responses, by their counts. -/
def responses (calls : List UsbCall) : List Nat :=
  calls.filterMap fun c =>
    match c with
    | .response count => some count
    | .request _ _ => none
    | .assertFailed => none

/-- The read a call is, by its size. -/
def Call.read : Call → Option Nat
  | .readDr size => some size
  | .writeIr _ => none
  | .writeDr _ _ => none
  | .run _ => none
  | .sync => none

/-- What is sent is sent: calls are added behind, and clocks add no
fetch. -/
structure Batch.Sends (s t : Batch) (fetches : List Nat) : Prop where
  calls : ∃ more, t.calls = s.calls ++ more
  responses : responses t.calls = responses s.calls ++ fetches

theorem Batch.Sends.refl (s : Batch) : s.Sends s [] :=
  ⟨⟨[], (List.append_nil _).symm⟩, (List.append_nil _).symm⟩

theorem Batch.Sends.trans {s t u : Batch} {xs ys : List Nat} (h : s.Sends t xs) (h' : t.Sends u ys) :
    s.Sends u (xs ++ ys) := by
  obtain ⟨more, hmore⟩ := h.calls
  obtain ⟨more', hmore'⟩ := h'.calls
  exact ⟨⟨more ++ more', by rw [hmore', hmore, List.append_assoc]⟩,
    by rw [h'.responses, h.responses, List.append_assoc]⟩

theorem responses_usbJtagRequest (data : List UInt8) : responses [usbJtagRequest data] = [] := by
  rw [usbJtagRequest]
  split
  · rfl
  · rfl

theorem sends_sync (s : Batch) : s.Sends (jtagSync s) [] := by
  rw [jtagSync]
  split
  · refine ⟨⟨_, rfl⟩, ?_⟩
    have happ : responses (s.calls ++ [usbJtagRequest s.buf]) =
        responses s.calls ++ responses [usbJtagRequest s.buf] := List.filterMap_append
    rw [← responses_usbJtagRequest s.buf]
    exact happ
  · exact .refl s

theorem sends_clk (s : Batch) (y : Sym) : s.Sends (clk s y) [] := by
  have hput : s.Sends { s with buf := s.buf ++ [ofBool y.tdi <<< 1 ||| ofBool y.tms] } [] :=
    ⟨⟨[], (List.append_nil _).symm⟩, (List.append_nil _).symm⟩
  rw [clk, jtagClk]
  split
  · exact hput.trans (sends_sync _)
  · exact hput

theorem sends_clks (s : Batch) (ys : List Sym) : s.Sends (clks s ys) [] := by
  induction ys generalizing s with
  | nil => exact .refl s
  | cons y ys ih => exact (sends_clk s y).trans (ih (clk s y))

theorem good_empty : Batch.empty.Good :=
  ⟨show 0 < 255 by omega, fun b hb => (by cases hb), fun c hc => (by cases hc)⟩

/-- The request of a read carries its shift symbols. -/
theorem readCalls_eq {size : Nat} (hpos : 1 ≤ size) (hle : size ≤ 255) :
    ∃ buf, readCalls size = [.request size buf, .response size] ∧
      unpack size buf = shiftSyms (List.replicate size false) := by
  generalize hys : shiftSyms (List.replicate size false) = ys
  have hlen : (ys.map (fun y => ofBool y.tdi <<< 1 ||| ofBool y.tms)).length = size := by
    rw [← hys, List.length_map, shiftSyms_length, List.length_replicate]
  have hfields : ∀ b ∈ ys.map (fun y => ofBool y.tdi <<< 1 ||| ofBool y.tms), b < 4 := by
    intro b hb
    obtain ⟨y, -, rfl⟩ := List.mem_map.mp hb
    exact (ofBool_cases y).1
  obtain ⟨buf, hrequest, hunpack⟩ := usbJtagRequest_spec hfields (by omega) (by omega)
  have hback : (ys.map (fun y => ofBool y.tdi <<< 1 ||| ofBool y.tms)).map toSym = ys := by
    rw [List.map_map]
    exact List.map_id'' (fun y => (ofBool_cases y).2) ys
  rw [hlen] at hrequest hunpack
  exact ⟨buf, by rw [readCalls, hys, hrequest], hunpack.trans hback⟩

/-- **What one call sends.** -/
theorem exec_spec {s : Batch} (h : s.Good) {c : Call} (hc : c.Sized) :
    (exec s c).Good ∧ (exec s c).syms = s.syms ++ c.syms ∧ s.Sends (exec s c) c.read.toList := by
  cases c with
  | writeIr ir =>
      obtain ⟨hgood, hsyms⟩ := clks_spec h (irScan (irBits ir))
      rw [exec, jtagWriteIr_eq]
      exact ⟨hgood, hsyms, sends_clks s _⟩
  | writeDr data size =>
      obtain ⟨hgood, hsyms⟩ := clks_spec h (drScan (drBits data size))
      rw [exec, jtagWriteDr_eq]
      exact ⟨hgood, hsyms, sends_clks s _⟩
  | run count =>
      obtain ⟨hgood, hsyms⟩ := clks_spec h (List.replicate count ⟨false, false⟩)
      rw [exec, jtagRun_eq]
      exact ⟨hgood, hsyms, sends_clks s _⟩
  | sync =>
      obtain ⟨hgood, -, hsyms⟩ := sync_spec h
      exact ⟨hgood, hsyms.trans (List.append_nil _).symm, sends_sync s⟩
  | readDr size =>
      obtain ⟨hgood, hsyms⟩ := clks_spec h [⟨false, true⟩, ⟨false, false⟩, ⟨false, false⟩]
      obtain ⟨hsent, hbuf, hsyms'⟩ := sync_spec hgood
      have hsends := (sends_clks s _).trans
        (sends_sync (clks s [⟨false, true⟩, ⟨false, false⟩, ⟨false, false⟩]))
      obtain ⟨buf, hread, hunpack⟩ := readCalls_eq hc.1 hc.2
      rw [exec, jtagReadDr_eq s hc.1 hc.2, hread]
      generalize jtagSync (clks s [⟨false, true⟩, ⟨false, false⟩, ⟨false, false⟩]) = t
        at hsent hbuf hsyms' hsends ⊢
      generalize hu : ({ buf := [], calls := t.calls ++ [.request size buf, .response size] } : Batch)
        = u
      have hugood : u.Good := by
        rw [← hu]
        refine ⟨show 0 < 255 by omega, fun b hb => (by cases hb), ?_⟩
        intro c hc
        obtain hc | hc := List.mem_append.mp hc
        · exact hsent.calls c hc
        · simp only [List.mem_cons, List.not_mem_nil, or_false] at hc
          obtain rfl | rfl := hc
          · exact UsbCall.noConfusion
          · exact UsbCall.noConfusion
      have husyms : u.syms = t.syms ++ shiftSyms (List.replicate size false) := by
        rw [← hu, Batch.syms, Batch.syms, hbuf, clocked_append, ← hunpack]
        simp [clocked, UsbCall.clocked]
      have husends : t.Sends u [size] := by
        rw [← hu]
        exact ⟨⟨_, rfl⟩, List.filterMap_append⟩
      obtain ⟨hgood', hend⟩ := clks_spec hugood [⟨false, true⟩, ⟨false, false⟩]
      refine ⟨hgood', ?_, (hsends.trans husends).trans (sends_clks u _)⟩
      rw [hend, husyms, hsyms', hsyms, Call.syms, drScan]
      simp only [List.append_assoc]

theorem execAll_spec {s : Batch} (h : s.Good) {calls : List Call} (hc : ∀ c ∈ calls, c.Sized) :
    (execAll s calls).Good ∧ (execAll s calls).syms = s.syms ++ calls.flatMap Call.syms ∧
      s.Sends (execAll s calls) (calls.filterMap Call.read) := by
  induction calls generalizing s with
  | nil => exact ⟨h, (List.append_nil _).symm, .refl s⟩
  | cons c calls ih =>
      rw [List.forall_mem_cons] at hc
      obtain ⟨hgood, hsyms, hsends⟩ := exec_spec h hc.1
      obtain ⟨hgood', hsyms', hsends'⟩ := ih hgood hc.2
      refine ⟨hgood', ?_, ?_⟩
      · rw [List.flatMap_cons, ← List.append_assoc, ← hsyms]
        exact hsyms'
      · have hreads : (c :: calls).filterMap Call.read =
            c.read.toList ++ calls.filterMap Call.read := by
          cases hread : c.read with
          | none => rw [List.filterMap_cons_none hread]; rfl
          | some size => rw [List.filterMap_cons_some hread]; rfl
        rw [hreads]
        exact hsends.trans hsends'

theorem execAll_append (s : Batch) (xs ys : List Call) :
    execAll s (xs ++ ys) = execAll (execAll s xs) ys := List.foldl_append

/-! ## The port -/

/-- **What a call does to the port**: back to Run-Test/Idle, with its
updates. -/
theorem run_call {c : Call} (hc : c.Sized) (shifted : List Bool) (updates : List Update) :
    ∃ shifted', run ⟨.runTestIdle, shifted, updates⟩ c.syms =
      ⟨.runTestIdle, shifted', updates ++ c.updates⟩ := by
  have hbits : ∀ {bits : List Bool}, 1 ≤ bits.length → bits ≠ [] :=
    fun h => List.ne_nil_of_length_pos h
  cases c with
  | writeIr ir => exact ⟨_, run_irScan (hbits (by simp [irBits])) shifted updates⟩
  | writeDr data size =>
      have hsize : 1 ≤ size := hc
      exact ⟨_, run_drScan (hbits (by simpa [drBits] using hsize)) shifted updates⟩
  | readDr size =>
      have hsize : 1 ≤ size := hc.1
      exact ⟨_, run_drScan (hbits (by simpa using hsize)) shifted updates⟩
  | run count => exact ⟨shifted, by rw [Call.syms, run_idle, Call.updates, List.append_nil]⟩
  | sync => exact ⟨shifted, by rw [Call.syms, run_nil, Call.updates, List.append_nil]⟩

theorem run_calls {calls : List Call} (hc : ∀ c ∈ calls, c.Sized) (shifted : List Bool)
    (updates : List Update) :
    ∃ shifted', run ⟨.runTestIdle, shifted, updates⟩ (calls.flatMap Call.syms) =
      ⟨.runTestIdle, shifted', updates ++ calls.flatMap Call.updates⟩ := by
  induction calls generalizing shifted updates with
  | nil => exact ⟨shifted, by rw [List.flatMap_nil, run_nil, List.flatMap_nil, List.append_nil]⟩
  | cons c calls ih =>
      rw [List.forall_mem_cons] at hc
      obtain ⟨mid, hrun⟩ := run_call hc.1 shifted updates
      obtain ⟨last, hrest⟩ := ih hc.2 mid (updates ++ c.updates)
      exact ⟨last, by rw [List.flatMap_cons, run_append, hrun, hrest, List.flatMap_cons,
        List.append_assoc]⟩

/-! ## The whole -/

/-- What has reached the microcontroller after some transactions. -/
structure Transacted (calls : List Call) (sent : List UsbCall) : Prop where
  /-- no assertion fails -/
  asserted : ∀ c ∈ sent, c ≠ .assertFailed
  /-- the requests carry the symbols of the calls -/
  syms : clocked sent = calls.flatMap Call.syms
  /-- every call ends in Run-Test/Idle, with its registers updated -/
  port : ∀ pre post, calls = pre ++ post → ∀ shifted updates,
    ∃ shifted', run ⟨.runTestIdle, shifted, updates⟩ (pre.flatMap Call.syms) =
      ⟨.runTestIdle, shifted', updates ++ pre.flatMap Call.updates⟩
  /-- a response is fetched right behind the request with its shift
  symbols -/
  reads : ∀ pre size post, calls = pre ++ .readDr size :: post → ∃ before buf after,
    sent = before ++ .request size buf :: .response size :: after ∧
    clocked before = pre.flatMap Call.syms ++ [⟨false, true⟩, ⟨false, false⟩, ⟨false, false⟩] ∧
    unpack size buf = shiftSyms (List.replicate size false)
  /-- and nothing else is fetched -/
  responses : responses sent = calls.filterMap Call.read

theorem clocked_of_buf_nil {s : Batch} (h : s.buf = []) : clocked s.calls = s.syms := by
  rw [Batch.syms, h]
  exact (List.append_nil _).symm

/-- A read within a run. -/
theorem exec_read {pre post : List Call} {size : Nat}
    (hc : ∀ c ∈ pre ++ .readDr size :: post, c.Sized) :
    ∃ before buf after,
      (execAll .empty (pre ++ .readDr size :: post)).calls =
        before ++ .request size buf :: .response size :: after ∧
      clocked before = pre.flatMap Call.syms ++ [⟨false, true⟩, ⟨false, false⟩, ⟨false, false⟩] ∧
      unpack size buf = shiftSyms (List.replicate size false) := by
  have hpre : ∀ c ∈ pre, c.Sized := fun c h => hc c (List.mem_append_left _ h)
  have hsize : 1 ≤ size ∧ size ≤ 255 :=
    hc (.readDr size) (List.mem_append_right _ List.mem_cons_self)
  have hpost : ∀ c ∈ post, c.Sized :=
    fun c h => hc c (List.mem_append_right _ (List.mem_cons_of_mem _ h))
  obtain ⟨hgood, hsyms, -⟩ := execAll_spec good_empty hpre
  obtain ⟨hgood₁, hsyms₁⟩ := clks_spec hgood [⟨false, true⟩, ⟨false, false⟩, ⟨false, false⟩]
  obtain ⟨-, hbuf, hsyms₂⟩ := sync_spec hgood₁
  obtain ⟨buf, hread, hunpack⟩ := readCalls_eq hsize.1 hsize.2
  obtain ⟨hgood₃, -, -⟩ := exec_spec hgood (c := .readDr size) hsize
  have hexec := jtagReadDr_eq (execAll .empty pre) hsize.1 hsize.2
  obtain ⟨more, hmore⟩ := (sends_clks
    { buf := []
      calls := (jtagSync (clks (execAll .empty pre)
        [⟨false, true⟩, ⟨false, false⟩, ⟨false, false⟩])).calls ++ readCalls size }
    [⟨false, true⟩, ⟨false, false⟩]).calls
  rw [← hexec] at hmore
  obtain ⟨rest, hrest⟩ := (execAll_spec hgood₃ hpost).2.2.calls
  refine ⟨(jtagSync (clks (execAll .empty pre)
    [⟨false, true⟩, ⟨false, false⟩, ⟨false, false⟩])).calls, buf, more ++ rest, ?_, ?_, hunpack⟩
  · rw [execAll_append]
    show (execAll (exec (execAll .empty pre) (.readDr size)) post).calls = _
    rw [hrest]
    show (jtagReadDr (execAll .empty pre) size).calls ++ rest = _
    rw [hmore, hread]
    simp only [List.append_assoc, List.cons_append, List.nil_append]
  · rw [clocked_of_buf_nil hbuf, hsyms₂, hsyms₁, hsyms]
    rfl

/-- **Transactions survive batching.** Whatever calls are made from an
empty batch and ended by a sync, the microcontroller gets their symbols
in order, the port is back in Run-Test/Idle behind every call with the
registers updated as asked, and every response belongs to the request in
front of it. -/
theorem run_transactions (calls : List Call) (hc : ∀ c ∈ calls, c.Sized) :
    Transacted calls (execAll .empty (calls ++ [.sync])).calls := by
  have hall : ∀ c ∈ calls ++ [.sync], c.Sized := by
    intro c h
    obtain h | h := List.mem_append.mp h
    · exact hc c h
    · rw [List.mem_singleton.mp h]
      exact trivial
  have hlast : execAll .empty (calls ++ [.sync]) = jtagSync (execAll .empty calls) := by
    rw [execAll_append]
    rfl
  obtain ⟨hgood, hsyms, -⟩ := execAll_spec good_empty hc
  obtain ⟨hgood', hbuf, hsyms'⟩ := sync_spec hgood
  refine ⟨?_, ?_, ?_, ?_, ?_⟩
  · rw [hlast]
    exact hgood'.calls
  · rw [hlast, clocked_of_buf_nil hbuf, hsyms', hsyms]
    rfl
  · intro pre post heq shifted updates
    exact run_calls (fun c h => hc c (by rw [heq]; exact List.mem_append_left _ h)) shifted updates
  · intro pre size post heq
    have happ : calls ++ [.sync] = pre ++ .readDr size :: (post ++ [.sync]) := by
      rw [heq, List.append_assoc, List.cons_append]
    rw [happ]
    exact exec_read (by rw [← happ]; exact hall)
  · have hreads := (execAll_spec good_empty hall).2.2.responses
    rw [hreads, List.filterMap_append]
    exact List.append_nil _

/-- An instruction, a write, a read that fills a batch, and some
idling. -/
def longCalls : List Call :=
  [.writeIr 0xE0, .writeDr (fun _ => 0x5A) 100, .readDr 255, .run 300, .readDr 32]

theorem run_transactions_longCalls :
    responses (execAll .empty (longCalls ++ [.sync])).calls = [255, 32] := by
  have hc : ∀ c ∈ longCalls, c.Sized := by
    intro c h
    simp only [longCalls, List.mem_cons, List.not_mem_nil, or_false] at h
    obtain rfl | rfl | rfl | rfl | rfl := h
    · exact trivial
    · exact (by decide : 1 ≤ 100)
    · exact (by decide : 1 ≤ 255 ∧ 255 ≤ 255)
    · exact trivial
    · exact (by decide : 1 ≤ 32 ∧ 32 ≤ 255)
  exact (run_transactions longCalls hc).responses

end UsbSniffer.Gen1.Jtag
