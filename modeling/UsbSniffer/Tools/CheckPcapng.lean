import UsbSniffer.LiveSession
import UsbSniffer.Tools.Replay

/-!
# The offline regression

`tools/check_pcapng.py` compares the capture of a replayed stream with
the sample the stream was made from. It and `tools/make_fake_stream.py`
read pcapng files each with a walk of its own, which both trust the total
length of a block and read its fields at fixed offsets.

`regression_passes` is the whole of the Makefile's test: a sample is read,
turned into a stream, replayed, written to a file, and the two files are
compared. The verdict is PASS for every sample that has the link type of
the replay and the announcement `Starting capture`; a sample that was
never triggered has no such text, and one of another speed another link
type.
-/

namespace UsbSniffer

open Lib FakeStream

namespace Tools.CheckPcapng

/-! ## The two walks -/

/-- `struct.unpack_from`, of a number of `n` bytes; `none` is the error
behind the end. -/
def unpackFrom (n : Nat) (data : List UInt8) (off : Nat) : Option Nat :=
  (readNat n (data.drop off)).map Prod.fst

/-- The loop of `walk_blocks`, from where it is on. -/
def walkFrom : Nat → List UInt8 → List (Nat × List UInt8)
  | 0, _ => []
  | fuel + 1, data =>
      match unpackFrom 4 data 0, unpackFrom 4 data 4 with
      | some btype, some blen =>
          if data.length < 12 then []
          else if blen < 12 ∨ data.length < blen then []
          else (btype, data.take blen) :: walkFrom fuel (data.drop blen)
      | _, _ => []

/-- `walk_blocks`. A block takes twelve bytes at least. -/
def walkBlocks (data : List UInt8) : List (Nat × List UInt8) := walkFrom data.length data

/-- An entry of `epbs`: the interface, the time and the payload. -/
structure Epb where
  iid : Nat
  ts : Nat
  payload : List UInt8
  deriving DecidableEq, Repr

/-- One turn of the loop of `collect`. -/
def collectBlock (st : List Nat × List Epb) (blk : Nat × List UInt8) :
    Option (List Nat × List Epb) := do
  let (btype, b) := blk
  if btype = 1 then
    let lt ← unpackFrom 2 b 8
    some (st.1 ++ [lt], st.2)
  else if btype = 6 then
    let iid ← unpackFrom 4 b 8
    let tsh ← unpackFrom 4 b 12
    let tsl ← unpackFrom 4 b 16
    let capLen ← unpackFrom 4 b 20
    some (st.1, st.2 ++ [⟨iid, tsh <<< 32 ||| tsl, (b.drop 28).take capLen⟩])
  else some st

/-- `collect`. -/
def collect (data : List UInt8) : Option (List Nat × List Epb) :=
  (walkBlocks data).foldlM collectBlock ([], [])

/-- `epbs.get(iid, [])`. -/
def getEpbs (epbs : List Epb) (iid : Nat) : List (Nat × List UInt8) :=
  (epbs.filter (·.iid = iid)).map fun e => (e.ts, e.payload)

/-- The link type and the packets `parse_pcapng_interface0` has found. -/
abbrev Parsed := Option Nat × List (Nat × List UInt8)

/-- What `parse_pcapng_interface0` of `make_fake_stream.py` does with a
block; `data` goes on behind it. -/
def parseBlock (data : List UInt8) (btype blen : Nat) (st : Parsed) : Option Parsed := do
  if btype = 1 then
    let lt ← unpackFrom 2 data 8
    some (st.1.orElse fun _ => some lt, st.2)
  else if btype = 6 ∧ 28 ≤ blen then
    let iid ← unpackFrom 4 data 8
    if iid = 0 then
      let tsh ← unpackFrom 4 data 12
      let tsl ← unpackFrom 4 data 16
      let plen ← unpackFrom 4 data 20
      if 28 + plen ≤ data.length then
        some (st.1, st.2 ++ [(tsh <<< 32 ||| tsl, (data.drop 28).take plen)])
      else some st
    else some st
  else some st

/-- Its loop. -/
def parseFrom : Nat → List UInt8 → Parsed → Option Parsed
  | 0, _, st => some st
  | fuel + 1, data, st =>
      if data.length < 12 then some st
      else do
        let btype ← unpackFrom 4 data 0
        let blen ← unpackFrom 4 data 4
        let st' ← parseBlock data btype blen st
        if blen < 12 then some st' else parseFrom fuel (data.drop blen) st'

/-- `parse_pcapng_interface0`. -/
def parsePcapngInterface0 (data : List UInt8) : Option Parsed :=
  parseFrom data.length data (none, [])

/-! ## The comparison -/

/-- `groups[payload]`. -/
def groupTs (epbs : List (Nat × List UInt8)) (payload : List UInt8) : List Nat :=
  (epbs.filter (·.2 = payload)).map Prod.fst

/-- The keys of `groups`. -/
def groupKeys (epbs : List (Nat × List UInt8)) : List (List UInt8) := (epbs.map Prod.snd).dedup

/-- The loop over two groups of one size. A mismatch makes the verdict
FAIL; what the loop goes on to print is left out. -/
def matchTs : List Nat → List Nat → Bool
  | a :: as, b :: bs =>
      if tsClose a b then matchTs as bs
      else if (bs.head?.any fun b' => tsClose a b') = true then matchTs (a :: as) bs
      else if (as.head?.any fun a' => tsClose a' b) = true then matchTs as (b :: bs)
      else false
  | _, _ => true
  termination_by ta tb => ta.length + tb.length

/-- One payload of the replayed file. -/
def groupOk (ta tb : List Nat) : Bool :=
  if ta.length ≠ tb.length then decide (ta.length ≤ tb.length + 1 ∧ tb.length ≤ ta.length + 1)
  else matchTs ta tb

/-- `main`: `a` is the replayed file, `b` the sample. The result is the
verdict; `none` is an exception. -/
def checkPcapng (a b : List UInt8) : Option Bool := do
  let (idsA, epbsA) ← collect a
  let (idsB, epbsB) ← collect b
  let packetsA := getEpbs epbsA 0
  let packetsB := getEpbs epbsB 0
  let sameKeys := decide (∀ k, k ∈ groupKeys packetsA ++ groupKeys packetsB →
    (k ∈ groupKeys packetsA ↔ k ∈ groupKeys packetsB))
  let groups := (groupKeys packetsA).all fun k => groupOk (groupTs packetsA k) (groupTs packetsB k)
  let joined := List.intercalate [124] ((getEpbs epbsB 1).map Prod.snd)
  let announced := decide (Pcapng.chars "Starting capture" <:+: joined)
  some (decide (idsA = idsB) && sameKeys && groups && announced)

/-! ## Fields at fixed offsets -/

theorem drop_append_of_length {xs ys : List UInt8} {off : Nat} (h : xs.length = off) :
    (xs ++ ys).drop off = ys := by
  rw [← h, List.drop_left]

/-- A field behind what is in front of it. -/
theorem unpackFrom_field {n off : Nat} {pre field : List UInt8} (hpre : pre.length = off)
    (hfield : field.length = n) (rest : List UInt8) :
    unpackFrom n (pre ++ (field ++ rest)) off = some (leNat field) := by
  rw [unpackFrom, drop_append_of_length hpre, readNat_append hfield]
  rfl

/-- A part of a file: the type of a block and its body. -/
abbrev Part := UInt32 × List UInt8

def Part.bytes (f : Part) : List UInt8 := Pcapng.framed f.1 f.2

/-- Its total length fits its field. -/
def Part.Short (f : Part) : Prop := f.2.length + 12 < 2 ^ 32

theorem Part.bytes_length (f : Part) : f.bytes.length = f.2.length + 12 :=
  Pcapng.framed_length f.1 f.2

/-- The bytes of a part, up to what follows the body. -/
theorem Part.bytes_eq (f : Part) (rest : List UInt8) :
    f.bytes ++ rest = Pcapng.wordBytes f.1 ++ (Pcapng.wordBytes (UInt32.ofNat (f.2.length + 12)) ++
      (f.2 ++ (Pcapng.wordBytes (UInt32.ofNat (f.2.length + 12)) ++ rest))) := by
  simp only [Part.bytes, Pcapng.framed, List.append_assoc]

theorem Part.unpack_type (f : Part) (rest : List UInt8) :
    unpackFrom 4 (f.bytes ++ rest) 0 = some f.1.toNat := by
  have hnil : ([] : List UInt8).length = 0 := rfl
  rw [f.bytes_eq, ← Pcapng.leNat_wordBytes]
  exact unpackFrom_field hnil (Pcapng.wordBytes_length _) _

theorem Part.unpack_length {f : Part} (h : f.Short) (rest : List UInt8) :
    unpackFrom 4 (f.bytes ++ rest) 4 = some f.bytes.length := by
  have htotal : (UInt32.ofNat (f.2.length + 12)).toNat = f.bytes.length := by
    rw [UInt32.toNat_ofNat_of_lt' h, f.bytes_length]
  rw [f.bytes_eq, ← htotal, ← Pcapng.leNat_wordBytes]
  exact unpackFrom_field (Pcapng.wordBytes_length _) (Pcapng.wordBytes_length _) _

/-- A field of the body. -/
theorem Part.unpack_body {f : Part} {n off : Nat} (pre : List UInt8) {field more : List UInt8}
    (hbody : f.2 = pre ++ (field ++ more)) (hpre : 8 + pre.length = off) (hfield : field.length = n)
    (rest : List UInt8) : unpackFrom n (f.bytes ++ rest) off = some (leNat field) := by
  have hhead : (Pcapng.wordBytes f.1 ++ Pcapng.wordBytes (UInt32.ofNat (f.2.length + 12)) ++
      pre).length = off := by
    simp only [List.length_append, Pcapng.wordBytes_length]
    omega
  rw [f.bytes_eq]
  have h := unpackFrom_field hhead hfield
    (more ++ (Pcapng.wordBytes (UInt32.ofNat (f.2.length + 12)) ++ rest))
  simp only [hbody, List.append_assoc] at h ⊢
  exact h

/-! ## The walks over a file -/

theorem walkFrom_part {f : Part} (h : f.Short) (fuel : Nat) (rest : List UInt8) :
    walkFrom (fuel + 1) (f.bytes ++ rest) = (f.1.toNat, f.bytes) :: walkFrom fuel rest := by
  have hlen : (f.bytes ++ rest).length = f.2.length + 12 + rest.length := by
    rw [List.length_append, f.bytes_length]
  have hblock := f.bytes_length
  rw [walkFrom, f.unpack_type, Part.unpack_length h]
  show (if _ then _ else _) = _
  rw [if_neg (by omega), if_neg (by omega), List.take_left, List.drop_left]

/-- The bytes of some parts. -/
def fileOf (fs : List Part) : List UInt8 := (fs.map Part.bytes).flatten

theorem length_le_fileOf (fs : List Part) : fs.length ≤ (fileOf fs).length := by
  induction fs with
  | nil => exact Nat.zero_le _
  | cons f fs ih =>
      have hblock := f.bytes_length
      rw [fileOf, List.map_cons, List.flatten_cons, List.length_append, List.length_cons]
      rw [fileOf] at ih
      omega

theorem walkFrom_nil (fuel : Nat) : walkFrom fuel [] = [] := by
  cases fuel <;> rfl

/-- **The walk finds the parts.** -/
theorem walkBlocks_fileOf {fs : List Part} (h : ∀ f ∈ fs, f.Short) :
    walkBlocks (fileOf fs) = fs.map fun f => (f.1.toNat, f.bytes) := by
  have hfuel : ∀ fuel, fs.length ≤ fuel →
      walkFrom fuel (fileOf fs) = fs.map fun f => (f.1.toNat, f.bytes) := by
    induction fs with
    | nil => exact fun fuel _ => walkFrom_nil fuel
    | cons f fs ih =>
        intro fuel hle
        cases fuel with
        | zero => simp at hle
        | succ fuel =>
            rw [fileOf, List.map_cons, List.flatten_cons, walkFrom_part (h f List.mem_cons_self),
              List.map_cons]
            exact congrArg _ (ih (fun g hg => h g (List.mem_cons_of_mem _ hg)) fuel
              (Nat.le_of_succ_le_succ hle))
  exact hfuel _ (length_le_fileOf fs)

/-! ## The parts of a session -/

def packetPart (interface : UInt32) (ts : UInt64) (payload more : List UInt8) : Part :=
  (6, Pcapng.packetBody interface ts payload more)

def interfacePart (linkType : UInt16) (name description : String) : Part :=
  (1, Pcapng.interfaceBody linkType name description)

def writeParts : Pcapng.Write → List Part
  | .epb ts data => [packetPart 0 ts data [0, 0, 0, 0]]
  | .info ts str => [packetPart 1 ts (Pcapng.syslogTag ++ str) []]
  | .flush => []

def headerParts (linkType : UInt32) : List Part :=
  [(0x0a0d0d0a, Pcapng.sectionBody), interfacePart linkType.toUInt16 "usb" "Hardware USB interface",
    interfacePart Pcapng.linktypeWiresharkUpperPdu "info" "Out of band information"]

theorem fileOf_append (fs gs : List Part) : fileOf (fs ++ gs) = fileOf fs ++ fileOf gs := by
  rw [fileOf, fileOf, fileOf, List.map_append, List.flatten_append]

theorem fileOf_writes (ws : List Pcapng.Write) :
    fileOf (ws.flatMap writeParts) = Pcapng.blocks ws := by
  induction ws with
  | nil => rfl
  | cons w ws ih =>
      have hone : fileOf (writeParts w) = w.block := by
        cases w with
        | epb ts data =>
            rw [Pcapng.Write.block, Pcapng.epbBlock_eq]
            exact List.append_nil _
        | info ts str =>
            rw [Pcapng.Write.block, Pcapng.infoBlock_eq]
            exact List.append_nil _
        | flush => rfl
      rw [List.flatMap_cons, fileOf_append, hone, ih, Pcapng.blocks_cons]

theorem fileOf_session (linkType : UInt32) (ws : List Pcapng.Write) :
    fileOf (headerParts linkType ++ ws.flatMap writeParts) =
      Pcapng.headers linkType ++ Pcapng.blocks ws := by
  have hfile : Pcapng.fileHeader = Part.bytes (0x0a0d0d0a, Pcapng.sectionBody) := by decide +kernel
  rw [fileOf_append, fileOf_writes, Pcapng.headers, hfile, Pcapng.usbHeader, Pcapng.infoHeader,
    Pcapng.interfaceHeader_eq, Pcapng.interfaceHeader_eq]
  simp only [fileOf, headerParts, List.map_cons, List.map_nil, List.flatten_cons, List.flatten_nil,
    List.append_nil, List.append_assoc]
  rfl

/-! ## What the readers take from a part -/

/-- The two halves of a time, put together. -/
theorem ts_or (ts : UInt64) :
    (ts >>> 32).toUInt32.toNat <<< 32 ||| ts.toUInt32.toNat = ts.toNat := by
  rw [← Nat.shiftLeft_add_eq_or_of_lt ts.toUInt32.toNat_lt, Nat.shiftLeft_eq]
  exact Pcapng.ts_halves ts

/-- The fields of a packet in a row. -/
theorem packetBody_eq (interface : UInt32) (ts : UInt64) (payload more : List UInt8) :
    Pcapng.packetBody interface ts payload more = Pcapng.wordBytes interface ++
      (Pcapng.wordBytes (ts >>> 32).toUInt32 ++ (Pcapng.wordBytes ts.toUInt32 ++
        (Pcapng.wordBytes (UInt32.ofNat payload.length) ++
          (Pcapng.wordBytes (UInt32.ofNat payload.length) ++
            (payload ++ (List.replicate (Lib.padding payload.length) 0 ++ more)))))) := by
  simp only [Pcapng.packetBody, List.append_assoc]

section Packet

variable (interface : UInt32) (ts : UInt64) (payload more rest : List UInt8)

theorem packetPart_iid :
    unpackFrom 4 ((packetPart interface ts payload more).bytes ++ rest) 8 =
      some interface.toNat := by
  rw [← Pcapng.leNat_wordBytes]
  exact Part.unpack_body [] (packetBody_eq interface ts payload more) rfl
    (Pcapng.wordBytes_length _) rest

theorem packetPart_high :
    unpackFrom 4 ((packetPart interface ts payload more).bytes ++ rest) 12 =
      some (ts >>> 32).toUInt32.toNat := by
  rw [← Pcapng.leNat_wordBytes]
  exact Part.unpack_body (Pcapng.wordBytes interface) (packetBody_eq interface ts payload more) rfl
    (Pcapng.wordBytes_length _) rest

theorem packetPart_low :
    unpackFrom 4 ((packetPart interface ts payload more).bytes ++ rest) 16 =
      some ts.toUInt32.toNat := by
  rw [← Pcapng.leNat_wordBytes]
  exact Part.unpack_body (Pcapng.wordBytes interface ++ Pcapng.wordBytes (ts >>> 32).toUInt32)
    (packetBody_eq interface ts payload more) rfl (Pcapng.wordBytes_length _) rest

theorem packetPart_size (hlen : payload.length < 2 ^ 32) :
    unpackFrom 4 ((packetPart interface ts payload more).bytes ++ rest) 20 =
      some payload.length := by
  have hsize : leNat (Pcapng.wordBytes (UInt32.ofNat payload.length)) = payload.length := by
    rw [Pcapng.leNat_wordBytes, UInt32.toNat_ofNat_of_lt' hlen]
  have hfield := Part.unpack_body (f := packetPart interface ts payload more)
    (Pcapng.wordBytes interface ++ Pcapng.wordBytes (ts >>> 32).toUInt32 ++
      Pcapng.wordBytes ts.toUInt32)
    (packetBody_eq interface ts payload more) rfl (Pcapng.wordBytes_length _) rest
  rw [hsize] at hfield
  exact hfield

/-- The payload stands behind the fixed fields. -/
theorem packetPart_payload :
    (((packetPart interface ts payload more).bytes ++ rest).drop 28).take payload.length =
      payload := by
  have hbody : (packetPart interface ts payload more).2 = _ := packetBody_eq interface ts payload more
  rw [Part.bytes_eq, hbody]
  simp only [List.append_assoc]
  exact List.take_left

theorem packetPart_length :
    28 + payload.length ≤ ((packetPart interface ts payload more).bytes ++ rest).length := by
  rw [List.length_append, Part.bytes_length, packetPart, Pcapng.packetBody_length]
  omega

theorem collectBlock_packet (hlen : payload.length < 2 ^ 32) (st : List Nat × List Epb) :
    collectBlock st ((packetPart interface ts payload more).1.toNat,
      (packetPart interface ts payload more).bytes) =
        some (st.1, st.2 ++ [⟨interface.toNat, ts.toNat, payload⟩]) := by
  have htype : (packetPart interface ts payload more).1.toNat = 6 := rfl
  have h8 := packetPart_iid interface ts payload more []
  have h12 := packetPart_high interface ts payload more []
  have h16 := packetPart_low interface ts payload more []
  have h20 := packetPart_size interface ts payload more [] hlen
  have h28 := packetPart_payload interface ts payload more []
  rw [List.append_nil] at h8 h12 h16 h20 h28
  simp only [collectBlock, htype, h8, h12, h16, h20, h28, ts_or, Option.bind_eq_bind,
    Option.bind_some, Nat.reduceEqDiff, if_false, if_true]

end Packet

theorem interfacePart_linkType (linkType : UInt16) (name description : String)
    (rest : List UInt8) :
    unpackFrom 2 ((interfacePart linkType name description).bytes ++ rest) 8 =
      some linkType.toNat := by
  have hbody : (interfacePart linkType name description).2 = [] ++ (Pcapng.halfBytes linkType ++
      (Pcapng.halfBytes 0 ++ (Pcapng.wordBytes 0xffff ++
        Pcapng.optionBytes (Pcapng.interfaceOptions name description)))) := by
    simp only [interfacePart, Pcapng.interfaceBody, List.append_assoc, List.nil_append]
  rw [← Pcapng.leNat_halfBytes]
  exact Part.unpack_body [] hbody rfl rfl rest

theorem collectBlock_interface (linkType : UInt16) (name description : String)
    (st : List Nat × List Epb) :
    collectBlock st ((interfacePart linkType name description).1.toNat,
      (interfacePart linkType name description).bytes) =
        some (st.1 ++ [linkType.toNat], st.2) := by
  have htype : (interfacePart linkType name description).1.toNat = 1 := rfl
  have h8 := interfacePart_linkType linkType name description []
  rw [List.append_nil] at h8
  simp only [collectBlock, htype, h8, Option.bind_eq_bind, Option.bind_some, if_true]

/-! ## Reading a session -/

/-- The entries a write should be read back as. -/
def writeEpbs : Pcapng.Write → List Epb
  | .epb ts data => [⟨0, ts.toNat, data⟩]
  | .info ts str => [⟨1, ts.toNat, Pcapng.syslogTag ++ str⟩]
  | .flush => []

theorem writeParts_short {w : Pcapng.Write} (h : w.InRange) : ∀ f ∈ writeParts w, f.Short := by
  intro f hf
  have hshort : ∀ (interface : UInt32) (ts : UInt64) (payload more : List UInt8),
      payload.length ≤ 2000 → more.length ≤ 4 → (packetPart interface ts payload more).Short := by
    intro interface ts payload more hpayload hmore
    have hpad : Lib.padding payload.length < 4 := Nat.mod_lt _ (by decide)
    rw [Part.Short, packetPart, Pcapng.packetBody_length]
    omega
  cases w with
  | epb ts data =>
      rw [List.mem_singleton.mp hf]
      have hdata : data.length ≤ 1273 := h
      exact hshort 0 ts data _ (by omega) (Nat.le_refl _)
  | info ts str =>
      rw [List.mem_singleton.mp hf]
      have hstr : str.length ≤ 511 := h
      refine hshort 1 ts _ _ ?_ (Nat.zero_le _)
      rw [List.length_append, Pcapng.syslogTag_length]
      omega
  | flush => exact absurd hf List.not_mem_nil

theorem headerParts_short (linkType : UInt32) : ∀ f ∈ headerParts linkType, f.Short := by
  intro f hf
  have hshort : ∀ (lt : UInt16) (name description : String),
      (Pcapng.optionBytes (Pcapng.interfaceOptions name description)).length ≤ 200 →
        (interfacePart lt name description).Short := by
    intro lt name description hlen
    rw [Part.Short, interfacePart, (Pcapng.interfaceBody_length lt name description).2]
    omega
  rcases List.mem_cons.mp hf with rfl | hf
  · show Pcapng.sectionBody.length + 12 < 2 ^ 32
    decide +kernel
  · rcases List.mem_cons.mp hf with rfl | hf
    · exact hshort _ _ _ (by decide +kernel)
    · rw [List.mem_singleton.mp hf]
      exact hshort _ _ _ (by decide +kernel)

theorem parts_short (linkType : UInt32) {ws : List Pcapng.Write} (h : ∀ w ∈ ws, w.InRange) :
    ∀ f ∈ headerParts linkType ++ ws.flatMap writeParts, f.Short := by
  intro f hf
  rcases List.mem_append.mp hf with hf | hf
  · exact headerParts_short linkType f hf
  · obtain ⟨w, hw, hfw⟩ := List.mem_flatMap.mp hf
    exact writeParts_short (h w hw) f hfw

/-- The step of `collect` for one part. -/
def collectPart (st : List Nat × List Epb) (f : Part) : Option (List Nat × List Epb) :=
  collectBlock st (f.1.toNat, f.bytes)

theorem collect_writes {ws : List Pcapng.Write} (h : ∀ w ∈ ws, w.InRange)
    (st : List Nat × List Epb) :
    (ws.flatMap writeParts).foldlM collectPart st = some (st.1, st.2 ++ ws.flatMap writeEpbs) := by
  induction ws generalizing st with
  | nil =>
      show some st = _
      rw [List.flatMap_nil, List.append_nil]
  | cons w ws ih =>
      have hone : (writeParts w).foldlM collectPart st = some (st.1, st.2 ++ writeEpbs w) := by
        have hw := h w List.mem_cons_self
        cases w with
        | epb ts data =>
            have hdata : data.length ≤ 1273 := hw
            rw [writeParts, List.foldlM_cons, collectPart,
              collectBlock_packet 0 ts _ _ (by omega) st]
            rfl
        | info ts str =>
            have hstr : str.length ≤ 511 := hw
            have hlen : (Pcapng.syslogTag ++ str).length < 2 ^ 32 := by
              rw [List.length_append, Pcapng.syslogTag_length]
              omega
            rw [writeParts, List.foldlM_cons, collectPart, collectBlock_packet 1 ts _ _ hlen st]
            rfl
        | flush =>
            show some st = _
            rw [writeEpbs, List.append_nil]
      rw [List.flatMap_cons, List.foldlM_append, hone, Option.bind_eq_bind, Option.bind_some,
        ih (fun v hv => h v (List.mem_cons_of_mem _ hv)), List.flatMap_cons, List.append_assoc]

/-- **`collect` reads a session back**: both link types, and an entry for
each packet and each text. -/
theorem collect_session (linkType : UInt32) {ws : List Pcapng.Write} (h : ∀ w ∈ ws, w.InRange) :
    collect (Pcapng.headers linkType ++ Pcapng.blocks ws) =
      some ([linkType.toNat % 2 ^ 16, 252], ws.flatMap writeEpbs) := by
  have hsection : collectPart ([], []) (0x0a0d0d0a, Pcapng.sectionBody) = some ([], []) := rfl
  have hheaders : (headerParts linkType).foldlM collectPart ([], []) =
      some ([linkType.toNat % 2 ^ 16, 252], []) := by
    rw [headerParts, List.foldlM_cons, hsection, Option.bind_eq_bind, Option.bind_some,
      List.foldlM_cons, collectPart, collectBlock_interface, Option.bind_eq_bind, Option.bind_some,
      List.foldlM_cons, collectPart, collectBlock_interface, UInt32.toNat_toUInt16]
    rfl
  rw [collect, ← fileOf_session, walkBlocks_fileOf (parts_short linkType h), List.foldlM_map,
    List.foldlM_append]
  show (headerParts linkType).foldlM collectPart ([], []) >>= _ = _
  rw [hheaders, Option.bind_eq_bind, Option.bind_some]
  exact collect_writes h _

/-! ## The sample -/

theorem parseFrom_part {f : Part} (h : f.Short) (fuel : Nat) (rest : List UInt8) (st : Parsed) :
    parseFrom (fuel + 1) (f.bytes ++ rest) st =
      (parseBlock (f.bytes ++ rest) f.1.toNat f.bytes.length st).bind (parseFrom fuel rest) := by
  have hlen : (f.bytes ++ rest).length = f.2.length + 12 + rest.length := by
    rw [List.length_append, f.bytes_length]
  have hblock := f.bytes_length
  rw [parseFrom, if_neg (by omega), f.unpack_type, Part.unpack_length h]
  simp only [Option.bind_eq_bind, Option.bind_some]
  congr 1
  funext st'
  rw [if_neg (by omega), List.drop_left]

/-- A part that is parsed to `k` of what is there, whatever follows. -/
def ParsedTo (k : Parsed → Parsed) (f : Part) : Prop :=
  ∀ rest st, parseBlock (f.bytes ++ rest) f.1.toNat f.bytes.length st = some (k st)

/-- The packets of a part. -/
def partPackets (interface : UInt32) (ts : UInt64) (payload : List UInt8) :
    List (Nat × List UInt8) :=
  if interface = 0 then [(ts.toNat, payload)] else []

theorem parsedTo_packet (interface : UInt32) (ts : UInt64) {payload : List UInt8}
    (more : List UInt8) (hlen : payload.length < 2 ^ 32) :
    ParsedTo (fun st => (st.1, st.2 ++ partPackets interface ts payload))
      (packetPart interface ts payload more) := by
  intro rest st
  have htype : (packetPart interface ts payload more).1.toNat = 6 := rfl
  have hlong : 28 ≤ (packetPart interface ts payload more).bytes.length := by
    have h := packetPart_length interface ts payload more []
    rw [List.append_nil] at h
    omega
  simp only [parseBlock, htype, packetPart_iid interface ts payload more rest,
    packetPart_high interface ts payload more rest, packetPart_low interface ts payload more rest,
    packetPart_size interface ts payload more rest hlen,
    packetPart_payload interface ts payload more rest, ts_or, Option.bind_eq_bind,
    Option.bind_some, Nat.reduceEqDiff, if_false, if_true, hlong, and_self,
    packetPart_length interface ts payload more rest]
  by_cases hzero : interface = 0
  · subst hzero
    rfl
  · have hne : interface.toNat ≠ 0 := fun h => hzero (UInt32.toNat_inj.mp h)
    rw [if_neg hne, partPackets, if_neg hzero, List.append_nil]

theorem parsedTo_interface (linkType : UInt16) (name description : String) :
    ParsedTo (fun st => (st.1.orElse fun _ => some linkType.toNat, st.2))
      (interfacePart linkType name description) := by
  intro rest st
  have htype : (interfacePart linkType name description).1.toNat = 1 := rfl
  simp only [parseBlock, htype, interfacePart_linkType, Option.bind_eq_bind, Option.bind_some,
    if_true]

theorem parsedTo_section : ParsedTo id (0x0a0d0d0a, Pcapng.sectionBody) := fun _ _ => rfl

theorem ParsedTo.step {f : Part} {k : Parsed → Parsed} (hf : ParsedTo k f) (h : f.Short)
    {fuel : Nat} {fs : List Part} (hfuel : (f :: fs).length ≤ fuel) (st : Parsed) :
    ∃ fuel', fs.length ≤ fuel' ∧
      parseFrom fuel (fileOf (f :: fs)) st = parseFrom fuel' (fileOf fs) (k st) := by
  cases fuel with
  | zero => simp at hfuel
  | succ fuel =>
      refine ⟨fuel, Nat.le_of_succ_le_succ hfuel, ?_⟩
      rw [fileOf, List.map_cons, List.flatten_cons, parseFrom_part h, hf, Option.bind_some]
      rfl

theorem parseFrom_nil (fuel : Nat) (st : Parsed) : parseFrom fuel [] st = some st := by
  cases fuel <;> rfl

theorem parseFrom_writes {ws : List Pcapng.Write} (h : ∀ w ∈ ws, w.InRange) {fuel : Nat}
    (hfuel : (ws.flatMap writeParts).length ≤ fuel) (st : Parsed) :
    parseFrom fuel (fileOf (ws.flatMap writeParts)) st =
      some (st.1, st.2 ++ ws.filterMap Gen2.packetOf) := by
  induction ws generalizing fuel st with
  | nil =>
      show parseFrom fuel [] st = _
      rw [parseFrom_nil, List.filterMap_nil, List.append_nil]
  | cons w ws ih =>
      have hw := h w List.mem_cons_self
      have hshort := writeParts_short hw
      have hrest {fuel : Nat} := @ih (fun v hv => h v (List.mem_cons_of_mem _ hv)) fuel
      cases w with
      | epb ts data =>
          have hdata : data.length ≤ 1273 := hw
          obtain ⟨fuel', hfuel', hstep⟩ := (parsedTo_packet 0 ts [0, 0, 0, 0] (by omega)).step
            (hshort _ List.mem_cons_self) hfuel st
          have hone : (Pcapng.Write.epb ts data :: ws).filterMap Gen2.packetOf =
              (ts.toNat, data) :: ws.filterMap Gen2.packetOf := rfl
          refine hstep.trans ((hrest hfuel' _).trans ?_)
          rw [hone, List.append_assoc]
          rfl
      | info ts str =>
          have hstr : str.length ≤ 511 := hw
          have hlen : (Pcapng.syslogTag ++ str).length < 2 ^ 32 := by
            rw [List.length_append, Pcapng.syslogTag_length]
            omega
          obtain ⟨fuel', hfuel', hstep⟩ := (parsedTo_packet 1 ts [] hlen).step
            (hshort _ List.mem_cons_self) hfuel st
          refine hstep.trans ((hrest hfuel' _).trans ?_)
          rw [List.filterMap_cons_none rfl, partPackets, if_neg (by decide), List.append_nil]
      | flush =>
          rw [List.filterMap_cons_none rfl]
          exact hrest hfuel st

/-- **The generator reads a session back**: the link type and the packets,
each with its time. -/
theorem parse_session (linkType : UInt32) {ws : List Pcapng.Write} (h : ∀ w ∈ ws, w.InRange) :
    parsePcapngInterface0 (Pcapng.headers linkType ++ Pcapng.blocks ws) =
      some (some (linkType.toNat % 2 ^ 16), ws.filterMap Gen2.packetOf) := by
  have hshort := headerParts_short linkType
  have hfuel := length_le_fileOf (headerParts linkType ++ ws.flatMap writeParts)
  rw [parsePcapngInterface0, ← fileOf_session]
  obtain ⟨fuel₁, hfuel₁, h₁⟩ := parsedTo_section.step (hshort _ List.mem_cons_self) hfuel (none, [])
  obtain ⟨fuel₂, hfuel₂, h₂⟩ :=
    (parsedTo_interface linkType.toUInt16 "usb" "Hardware USB interface").step
      (hshort _ (List.mem_cons_of_mem _ List.mem_cons_self)) hfuel₁ (none, [])
  obtain ⟨fuel₃, hfuel₃, h₃⟩ :=
    (parsedTo_interface Pcapng.linktypeWiresharkUpperPdu "info" "Out of band information").step
      (hshort _ (List.mem_cons_of_mem _ (List.mem_cons_of_mem _ List.mem_cons_self))) hfuel₂
      (some linkType.toUInt16.toNat, [])
  refine h₁.trans (h₂.trans (h₃.trans ?_))
  rw [← UInt32.toNat_toUInt16]
  exact parseFrom_writes h hfuel₃ _

/-- `main` of the generator, on a file. -/
def fakeStreamOf (speed : SpeedArg) (sample : List UInt8) : Option (List UInt8) :=
  (parsePcapngInterface0 sample).bind fun r => makeFakeStream speed r.2

/-! ## The verdict -/

theorem tsClose_comm {ta tb : Int} (h : tsClose ta tb) : tsClose tb ta := by
  rw [tsClose, wrapNs, tolNs, min_le_iff, min_le_iff, abs_le, abs_le, abs_le] at h ⊢
  omega

/-- Two groups that agree entry by entry are matched. -/
theorem matchTs_of_close {ta tb : List Nat}
    (h : List.Forall₂ (fun a b : Nat => tsClose a b) ta tb) : matchTs ta tb = true := by
  induction h with
  | nil => simp [matchTs]
  | cons hclose _ ih => rw [matchTs, if_pos hclose, ih]

theorem groupOk_of_close {ta tb : List Nat}
    (h : List.Forall₂ (fun a b : Nat => tsClose a b) ta tb) : groupOk ta tb = true := by
  rw [groupOk, if_neg (not_not.mpr h.length_eq), matchTs_of_close h]

/-- A packet of the replayed file and the sample's. -/
def Agree (a b : Nat × List UInt8) : Prop := a.2 = b.2 ∧ tsClose a.1 b.1

theorem groupTs_of_agree {as bs : List (Nat × List UInt8)} (h : List.Forall₂ Agree as bs)
    (payload : List UInt8) :
    List.Forall₂ (fun a b : Nat => tsClose a b) (groupTs as payload) (groupTs bs payload) := by
  have hsame : (as.filter (·.2 = payload)).Forall₂ Agree (bs.filter (·.2 = payload)) := by
    refine List.rel_filter ?_ h
    intro a b hab
    have hpayload : a.2 = b.2 := hab.1
    simp only [hpayload]
  rw [groupTs, groupTs, List.forall₂_map_left_iff, List.forall₂_map_right_iff]
  exact hsame.imp fun _ _ hab => hab.2

theorem payloads_of_agree {as bs : List (Nat × List UInt8)} (h : List.Forall₂ Agree as bs) :
    as.map Prod.snd = bs.map Prod.snd := by
  induction h with
  | nil => rfl
  | cons hab _ ih => rw [List.map_cons, List.map_cons, hab.1, ih]

theorem groupKeys_of_agree {as bs : List (Nat × List UInt8)} (h : List.Forall₂ Agree as bs) :
    groupKeys as = groupKeys bs := by
  rw [groupKeys, groupKeys, payloads_of_agree h]

/-- Two files with the same link types, whose packets agree in order. -/
theorem checkPcapng_of_agree {a b : List UInt8} {ids : List Nat} {epbsA epbsB : List Epb}
    (ha : collect a = some (ids, epbsA)) (hb : collect b = some (ids, epbsB))
    (hagree : List.Forall₂ Agree (getEpbs epbsA 0) (getEpbs epbsB 0))
    (hannounced : Pcapng.chars "Starting capture" <:+:
      List.intercalate [124] ((getEpbs epbsB 1).map Prod.snd)) : checkPcapng a b = some true := by
  have hgroups : ((groupKeys (getEpbs epbsB 0)).all fun k =>
      groupOk (groupTs (getEpbs epbsA 0) k) (groupTs (getEpbs epbsB 0) k)) = true :=
    List.all_eq_true.mpr fun k _ => groupOk_of_close (groupTs_of_agree hagree k)
  simp only [checkPcapng, ha, hb, Option.bind_eq_bind, Option.bind_some, hgroups, hannounced,
    groupKeys_of_agree hagree, iff_self, implies_true, decide_true, Bool.and_self]

/-! ## The entries of a session -/

theorem getEpbs_append (xs ys : List Epb) (iid : Nat) :
    getEpbs (xs ++ ys) iid = getEpbs xs iid ++ getEpbs ys iid := by
  rw [getEpbs, List.filter_append, List.map_append]
  rfl

/-- Interface 0 holds the packets. -/
theorem getEpbs_packets (ws : List Pcapng.Write) :
    getEpbs (ws.flatMap writeEpbs) 0 = ws.filterMap Gen2.packetOf := by
  induction ws with
  | nil => rfl
  | cons w ws ih =>
      rw [List.flatMap_cons, getEpbs_append, ih]
      cases w <;> rfl

/-- Interface 1 holds every text. -/
theorem mem_texts {ws : List Pcapng.Write} {ts : UInt64} {str : List UInt8}
    (h : .info ts str ∈ ws) :
    Pcapng.syslogTag ++ str ∈ (getEpbs (ws.flatMap writeEpbs) 1).map Prod.snd := by
  refine List.mem_map.mpr ⟨(ts.toNat, Pcapng.syslogTag ++ str), List.mem_map.mpr
    ⟨⟨1, ts.toNat, Pcapng.syslogTag ++ str⟩, List.mem_filter.mpr ⟨?_, rfl⟩, rfl⟩, rfl⟩
  exact List.mem_flatMap.mpr ⟨_, h, List.mem_singleton_self _⟩

/-- What is found in one of the strings is found in the joined one. -/
theorem infix_intercalate {α : Type} (sep : List α) {xs : List (List α)} {x : List α}
    (h : x ∈ xs) : x <:+: List.intercalate sep xs := by
  induction xs with
  | nil => exact absurd h List.not_mem_nil
  | cons y ys ih =>
      cases ys with
      | nil =>
          rw [List.mem_singleton.mp h, List.intercalate_singleton]
      | cons z zs =>
          rw [List.intercalate_cons_cons]
          rcases List.mem_cons.mp h with rfl | h
          · exact List.infix_append_of_infix_left (List.prefix_append _ _).isInfix
          · exact (ih h).trans (List.suffix_append _ _).isInfix

/-- A text of a session with `Starting capture` in it. -/
def Announced (ws : List Pcapng.Write) : Prop :=
  ∃ ts str, .info ts str ∈ ws ∧ Pcapng.chars "Starting capture" <:+: str

theorem Announced.joined {ws : List Pcapng.Write} (h : Announced ws) :
    Pcapng.chars "Starting capture" <:+:
      List.intercalate [124] ((getEpbs (ws.flatMap writeEpbs) 1).map Prod.snd) := by
  obtain ⟨ts, str, hmem, hstr⟩ := h
  exact (hstr.trans (List.suffix_append _ _).isInfix).trans (infix_intercalate _ (mem_texts hmem))

/-! ## The regression -/

/-- The calls that write something. -/
def written (ws : List Pcapng.Write) : List Pcapng.Write := ws.filter (· ≠ .flush)

theorem packetOf_written (ws : List Pcapng.Write) :
    (written ws).filterMap Gen2.packetOf = ws.filterMap Gen2.packetOf := by
  rw [written, List.filterMap_filter]
  congr 1
  funext w
  cases w <;> rfl

theorem inRange_of_written {ws : List Pcapng.Write} (h : ∀ w ∈ written ws, w.InRange) :
    ∀ w ∈ ws, w.InRange := by
  intro w hw
  by_cases hflush : w = .flush
  · rw [hflush]
    exact trivial
  · exact h w (List.mem_filter.mpr ⟨hw, decide_eq_true hflush⟩)

/-- The replay of the packets of a sample: its own packets agree with
them, and its records fit their blocks. -/
theorem replay_agrees (turns : Nat) (build : String) (speed : SpeedArg) {opts : PacketOpts}
    (hfold : opts.foldEmpty = false) (htrigger : opts.captureTrigger = .disabled)
    (hlimit : opts.captureLimit ≤ 0) {epbs : List (Nat × List UInt8)}
    (hts : ∀ e ∈ epbs, e.1 < 2 ^ 60) (hlen : ∀ e ∈ epbs, 1 ≤ e.2.length ∧ e.2.length ≤ 1273)
    (hsorted : epbs.Pairwise fun a b => a.1 ≤ b.1) :
    ∃ stream s, makeFakeStream speed epbs = some stream ∧
      Replay.runCaptureGen2 turns build opts stream = some s ∧
      List.Forall₂ Agree (s.reached.packet.out.filterMap Record.packet) epbs ∧
      ∀ r ∈ s.reached.packet.out, r.write.InRange := by
  obtain ⟨b, fs, hbuilt, hcap, hturns, hpackets⟩ := capture_frames speed hts hlen hsorted
  have hstart : Packet.InStep .disabled false []
      ((Packet.new opts).announce.info ("Plugin build: " ++ build)) := by
    rw [← htrigger]
    exact (Packet.inStep_announce hfold hlimit).captureInfo _ (build_text build)
  obtain ⟨toggle, hframes⟩ := hstart.frames fs hturns
  obtain ⟨hout, hdone⟩ := hframes.padding b.capture.length
  rw [← Packet.feed_append, ← hcap] at hout hdone
  obtain ⟨s, hrun, reason, hpacket⟩ := Replay.run_fakeStream turns build opts b.capture rfl hdone
  have hquiet := hframes.quiet
  have hshown := hframes.packets
  rw [← hcap, ← hout] at hquiet hshown
  obtain ⟨hsame, -⟩ := Packet.captureInfo_quiet
    (p := Packet.feed _ (b.capture ++ FakeStream.padding b.capture.length)) (Packet.captureTs _)
    (stopped_text reason) hquiet
  have hagree : List.Forall₂ Agree (s.reached.packet.out.filterMap Record.packet) epbs := by
    rw [hpacket, Packet.stopInfo, hsame, hshown]
    exact List.Forall₂.flip (hpackets.imp fun _ _ hm => ⟨hm.payload, tsClose_comm hm.ts⟩)
  refine ⟨_, s, by rw [makeFakeStream, hbuilt]; rfl, hrun, hagree, ?_⟩
  intro r hr
  cases r with
  | info ts m => exact Gen2.text_length m
  | epb ts data =>
      have hmem : (ts.toNat, data) ∈ s.reached.packet.out.filterMap Record.packet :=
        List.mem_filterMap.mpr ⟨_, hr, rfl⟩
      have hpayload := List.mem_map_of_mem (f := Prod.snd) hmem
      rw [payloads_of_agree hagree] at hpayload
      obtain ⟨e, he, hdata⟩ := List.mem_map.mp hpayload
      have hle := (hlen e he).2
      rw [hdata] at hle
      exact hle

/-- **The regression passes.** Take any file the program has written with
the link type of the replay's speed and with `Starting capture` in it,
whose packets are in order of time, below `2 ^ 60` ns and not empty.
Turned into a stream with any `--speed`, replayed without folding, trigger
or limit and written in any session of the writer, wherever its flushes
stand and however its threads take turns, it gives a file that
`check_pcapng.py` passes against the sample. -/
theorem regression_passes (turns : Nat) (build : String) (speed : SpeedArg) (opts : PacketOpts)
    (hfold : opts.foldEmpty = false) (htrigger : opts.captureTrigger = .disabled)
    (hlimit : opts.captureLimit ≤ 0) (ws : List Pcapng.Write) (hrange : ∀ w ∈ ws, w.InRange)
    (hannounced : Announced ws)
    (hts : ∀ e ∈ ws.filterMap Gen2.packetOf, e.1 < 2 ^ 60 ∧ 1 ≤ e.2.length)
    (hsorted : (ws.filterMap Gen2.packetOf).Pairwise fun a b => a.1 ≤ b.1) :
    ∃ stream s,
      fakeStreamOf speed (Pcapng.headers (dltForSpeed opts.captureSpeed) ++ Pcapng.blocks ws) =
          some stream ∧
        Replay.runCaptureGen2 turns build opts stream = some s ∧
        ∀ pre post, written (pre ++ post) = s.reached.packet.out.map Record.write →
          ∀ f, Relation.ReflTransGen Pcapng.WritingStep
              (Pcapng.pcapngOpen (Pcapng.session pre (dltForSpeed opts.captureSpeed) post)) f →
            f.closed = true →
            checkPcapng f.file
              (Pcapng.headers (dltForSpeed opts.captureSpeed) ++ Pcapng.blocks ws) = some true := by
  have hlen : ∀ e ∈ ws.filterMap Gen2.packetOf, 1 ≤ e.2.length ∧ e.2.length ≤ 1273 := by
    intro e he
    obtain ⟨w, hw, hwe⟩ := List.mem_filterMap.mp he
    refine ⟨(hts e he).2, ?_⟩
    cases w with
    | epb ts data =>
        cases hwe
        exact hrange _ hw
    | info ts str => cases hwe
    | flush => cases hwe
  obtain ⟨stream, s, hstream, hrun, hagree, hin⟩ := replay_agrees turns build speed hfold htrigger
    hlimit (fun e he => (hts e he).1) hlen hsorted
  refine ⟨stream, s, ?_, hrun, ?_⟩
  · rw [fakeStreamOf, parse_session _ hrange]
    exact hstream
  intro pre post hwrites f hf hclosed
  have hpost : ∀ w ∈ pre ++ post, w.InRange := by
    refine inRange_of_written ?_
    rw [hwrites]
    intro w hw
    obtain ⟨r, hr, rfl⟩ := List.mem_map.mp hw
    exact hin r hr
  have hfile := (Gen2.read_of_closed hpost hf hclosed).1
  have hblocks : Pcapng.blocks pre ++ Pcapng.blocks post = Pcapng.blocks (pre ++ post) := by
    rw [Pcapng.blocks, Pcapng.blocks, Pcapng.blocks, List.map_append, List.flatten_append]
  rw [List.append_assoc, hblocks] at hfile
  rw [hfile]
  refine checkPcapng_of_agree (collect_session _ hpost) (collect_session _ hrange) ?_
    hannounced.joined
  rw [getEpbs_packets, getEpbs_packets, ← packetOf_written (pre ++ post), hwrites,
    Gen2.packetOf_records]
  exact hagree

/-- Two packets, one wrap of the timestamp apart. -/
def smallSample : List Pcapng.Write :=
  [.info 0 (Pcapng.chars "Starting capture"), .flush, .epb 1000 [0x2d, 0x00, 0x10],
    .epb 20000000 [0xd2]]

theorem regression_passes_smallSample :
    ∃ stream s,
      fakeStreamOf .fs (Pcapng.headers (dltForSpeed .fs) ++ Pcapng.blocks smallSample) =
          some stream ∧
        Replay.runCaptureGen2 9 "Jan  1 2025 00:00:00" { replayOpts with captureSpeed := .fs }
            stream = some s ∧
        ∀ pre post, written (pre ++ post) = s.reached.packet.out.map Record.write →
          ∀ f, Relation.ReflTransGen Pcapng.WritingStep
              (Pcapng.pcapngOpen (Pcapng.session pre (dltForSpeed .fs) post)) f →
            f.closed = true →
            checkPcapng f.file (Pcapng.headers (dltForSpeed .fs) ++ Pcapng.blocks smallSample) =
              some true :=
  regression_passes 9 "Jan  1 2025 00:00:00" .fs { replayOpts with captureSpeed := .fs } rfl rfl
    (by decide) smallSample (by simp [smallSample, Pcapng.Write.InRange, Pcapng.chars])
    ⟨0, Pcapng.chars "Starting capture", by simp [smallSample], List.infix_refl _⟩
    (by decide) (by decide)

end Tools.CheckPcapng

end UsbSniffer
