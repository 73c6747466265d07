import UsbSniffer.Lib.Bytes
import UsbSniffer.Pcapng.Delivery

/-!
# Reading the file back

A reader of pcapng files, after the grammar of the format: blocks of a
type, a total length, a body and the total length again, all in multiples
of four; in the body the fields of the block type and a list of options.
It is strict: wrong lengths, a bad magic or leftover bytes fail it.

`session_readable` says that the file of a session is one it reads, down
to every packet with its interface, timestamp and payload.
-/

namespace UsbSniffer.Pcapng

open Lib

/-! ## The grammar -/

/-- An option of a block. -/
structure BlockOption where
  code : Nat
  value : List UInt8
  deriving DecidableEq, Repr

/-- A block of the kinds the program writes, or any other. -/
inductive Block where
  | sectionHeader (major minor : Nat) (options : List BlockOption)
  | interfaceDescription (linkType snapLen : Nat) (options : List BlockOption)
  | enhancedPacket (interface : Nat) (ts : Nat) (data : List UInt8) (options : List BlockOption)
  | other (type : Nat) (body : List UInt8)
  deriving DecidableEq, Repr

/-- The options of a block: until the end-of-options mark, which closes
the body, or to the end of the body. -/
def readOptions : Nat → List UInt8 → Option (List BlockOption)
  | _, [] => some []
  | 0, _ :: _ => none
  | fuel + 1, b :: bs => do
      let (code, bs) ← readNat 2 (b :: bs)
      let (len, bs) ← readNat 2 bs
      let (value, bs) ← readBytes len bs
      let (_, bs) ← readBytes (padding len) bs
      if code = 0 then
        if len = 0 ∧ bs = [] then return [] else none
      else
        let more ← readOptions fuel bs
        return ⟨code, value⟩ :: more

/-- The section header: byte-order magic, version, section length. -/
def readSection (body : List UInt8) : Option Block := do
  let (magic, body) ← readNat 4 body
  let (major, body) ← readNat 2 body
  let (minor, body) ← readNat 2 body
  let (_, body) ← readNat 8 body
  let options ← readOptions body.length body
  if magic = 0x1a2b3c4d then return .sectionHeader major minor options else none

/-- The interface description: link type, a reserved half and the snap
length. -/
def readInterface (body : List UInt8) : Option Block := do
  let (linkType, body) ← readNat 2 body
  let (_, body) ← readNat 2 body
  let (snapLen, body) ← readNat 4 body
  let options ← readOptions body.length body
  return .interfaceDescription linkType snapLen options

/-- The enhanced packet: interface, the two halves of the timestamp, the
two lengths and the padded data. -/
def readPacket (body : List UInt8) : Option Block := do
  let (interface, body) ← readNat 4 body
  let (tsHigh, body) ← readNat 4 body
  let (tsLow, body) ← readNat 4 body
  let (captured, body) ← readNat 4 body
  let (original, body) ← readNat 4 body
  let (data, body) ← readBytes captured body
  let (_, body) ← readBytes (padding captured) body
  let options ← readOptions body.length body
  if captured ≤ original then
    return .enhancedPacket interface (tsHigh * 2 ^ 32 + tsLow) data options
  else none

def readBody (type : Nat) (body : List UInt8) : Option Block :=
  if type = 0x0a0d0d0a then readSection body
  else if type = 1 then readInterface body
  else if type = 6 then readPacket body
  else some (.other type body)

/-- A block: its leading and trailing total length agree, count all of it
and are a multiple of four. -/
def readBlock (bs : List UInt8) : Option (Block × List UInt8) := do
  let (type, bs) ← readNat 4 bs
  let (total, bs) ← readNat 4 bs
  if total < 12 ∨ total % 4 ≠ 0 then none
  else
    let (body, bs) ← readBytes (total - 12) bs
    let (again, bs) ← readNat 4 bs
    let block ← readBody type body
    if again = total then return (block, bs) else none

/-- All blocks of a file. -/
def readFile (bs : List UInt8) : Option (List Block) := readAll readBlock bs.length bs

/-! ## Words -/

theorem leNat_wordBytes (v : UInt32) : leNat (wordBytes v) = v.toNat := by
  have hlt := v.toNat_lt
  have h0 : v.toUInt8.toNat = v.toNat % 256 := UInt32.toNat_toUInt8 v
  have h8 : (v >>> 8).toUInt8.toNat = v.toNat / 256 % 256 := by
    rw [UInt32.toNat_toUInt8, UInt32.toNat_shiftRight]
    show v.toNat >>> 8 % 256 = _
    rw [Nat.shiftRight_eq_div_pow]
  have h16 : (v >>> 16).toUInt8.toNat = v.toNat / 65536 % 256 := by
    rw [UInt32.toNat_toUInt8, UInt32.toNat_shiftRight]
    show v.toNat >>> 16 % 256 = _
    rw [Nat.shiftRight_eq_div_pow]
  have h24 : (v >>> 24).toUInt8.toNat = v.toNat / 16777216 % 256 := by
    rw [UInt32.toNat_toUInt8, UInt32.toNat_shiftRight]
    show v.toNat >>> 24 % 256 = _
    rw [Nat.shiftRight_eq_div_pow]
  rw [wordBytes]
  simp only [leNat, h0, h8, h16, h24]
  omega

theorem readNat_wordBytes (v : UInt32) (rest : List UInt8) :
    readNat 4 (wordBytes v ++ rest) = some (v.toNat, rest) := by
  rw [readNat_append (wordBytes_length v), leNat_wordBytes]

/-- The bytes of a block around its body. -/
def framed (type : UInt32) (body : List UInt8) : List UInt8 :=
  wordBytes type ++ wordBytes (UInt32.ofNat (body.length + 12)) ++ body ++
    wordBytes (UInt32.ofNat (body.length + 12))

/-- **The patched length.** `send_buffer` puts the total length behind the
body and over the placeholder before it. -/
theorem sealBlock_eq (type : UInt32) (body : List UInt8) :
    sealBlock (writeBlockType type ++ body) = framed type body := by
  have hlen : (writeBlockType type ++ body).length + 4 = body.length + 12 := by
    rw [List.length_append, writeBlockType_length]
    omega
  rw [sealBlock, hlen, framed, putWord]
  rfl

theorem framed_length (type : UInt32) (body : List UInt8) :
    (framed type body).length = body.length + 12 := by
  simp only [framed, List.length_append, wordBytes_length]
  omega

/-- A block around a body that reads. -/
theorem readsAs_framed {type : UInt32} {body : List UInt8} {block : Block}
    (hbody : readBody type.toNat body = some block) (hlen : body.length + 12 < 2 ^ 32)
    (hfour : 4 ∣ body.length) : ReadsAs readBlock (framed type body) block := by
  have htotal : (UInt32.ofNat (body.length + 12)).toNat = body.length + 12 :=
    UInt32.toNat_ofNat_of_lt' hlen
  refine ⟨fun hnil => ?_, fun rest => ?_⟩
  · have h0 := congrArg List.length hnil
    rw [framed_length] at h0
    simp at h0
  · rw [framed, List.append_assoc, List.append_assoc, List.append_assoc, readBlock,
      readNat_wordBytes]
    simp only [Option.bind_eq_bind, Option.bind_some, readNat_wordBytes, htotal]
    rw [if_neg (by omega), readBytes_append (by omega)]
    simp only [Option.bind_some, readNat_wordBytes, htotal, hbody, if_true]
    rfl

/-! ## Packets -/

theorem putPad_append {block : List UInt8} (h : 4 ∣ block.length) (data : List UInt8) :
    putPad (block ++ data) = block ++ data ++ List.replicate (padding data.length) 0 := by
  have hpad : (4 - (block ++ data).length % 4) % 4 = padding data.length := by
    rw [List.length_append, padding]
    omega
  rw [putPad, hpad]

/-- The end-of-options mark. -/
theorem putOption_end {block : List UInt8} (h : 4 ∣ block.length) :
    putOption 0 [] block = block ++ [0, 0, 0, 0] := by
  have hput : putData [] (putHalf (UInt16.ofNat ([] : List UInt8).length) (putHalf 0 block)) =
      block ++ [0, 0, 0, 0] := by
    simp [putData, putHalf]
  rw [putOption, hput, putPad_append h]
  exact List.append_nil _

/-- The body of an enhanced packet block, with the options `tail`. -/
def packetBody (interface : UInt32) (ts : UInt64) (payload tail : List UInt8) : List UInt8 :=
  wordBytes interface ++ wordBytes (ts >>> 32).toUInt32 ++ wordBytes ts.toUInt32 ++
    wordBytes (UInt32.ofNat payload.length) ++ wordBytes (UInt32.ofNat payload.length) ++ payload ++
      List.replicate (padding payload.length) 0 ++ tail

theorem packetBody_length (interface : UInt32) (ts : UInt64) (payload tail : List UInt8) :
    (packetBody interface ts payload tail).length =
      20 + (payload.length + padding payload.length) + tail.length := by
  simp only [packetBody, List.length_append, wordBytes_length, List.length_replicate]
  omega

/-- The two halves of a timestamp. -/
theorem ts_halves (ts : UInt64) :
    (ts >>> 32).toUInt32.toNat * 2 ^ 32 + ts.toUInt32.toNat = ts.toNat := by
  have hlt := ts.toNat_lt
  have hhigh : (ts >>> 32).toUInt32.toNat = ts.toNat / 2 ^ 32 := by
    rw [UInt64.toNat_toUInt32, UInt64.toNat_shiftRight]
    show ts.toNat >>> 32 % 2 ^ 32 = _
    rw [Nat.shiftRight_eq_div_pow]
    omega
  have hlow : ts.toUInt32.toNat = ts.toNat % 2 ^ 32 := UInt64.toNat_toUInt32 ts
  omega

theorem readPacket_packetBody (interface : UInt32) (ts : UInt64) {payload tail : List UInt8}
    (hlen : payload.length < 2 ^ 32) (htail : readOptions tail.length tail = some []) :
    readPacket (packetBody interface ts payload tail) =
      some (.enhancedPacket interface.toNat ts.toNat payload []) := by
  have hsize : (UInt32.ofNat payload.length).toNat = payload.length :=
    UInt32.toNat_ofNat_of_lt' hlen
  simp only [packetBody, List.append_assoc, readPacket, readNat_wordBytes, Option.bind_eq_bind,
    Option.bind_some, hsize]
  rw [readBytes_append rfl]
  simp only [Option.bind_some]
  rw [readBytes_append (List.length_replicate)]
  simp only [Option.bind_some, htail, Nat.le_refl, if_true, ts_halves]
  rfl

theorem readsAs_packet (interface : UInt32) (ts : UInt64) {payload tail : List UInt8}
    (hlen : payload.length < 2 ^ 16) (htail : readOptions tail.length tail = some [])
    (hfour : 4 ∣ tail.length) (hshort : tail.length < 2 ^ 16) :
    ReadsAs readBlock (framed 6 (packetBody interface ts payload tail))
      (.enhancedPacket interface.toNat ts.toNat payload []) := by
  have hpad := dvd_add_padding payload.length
  have hpad3 : padding payload.length < 4 := Nat.mod_lt _ (by decide)
  have hbody := packetBody_length interface ts payload tail
  refine readsAs_framed (readPacket_packetBody interface ts (by omega) htail) ?_ ?_
  · omega
  · omega

theorem packetHead_eq (interface : UInt32) (ts : UInt64) (size : Nat) :
    packetHead interface ts size = writeBlockType 6 ++ (wordBytes interface ++
      wordBytes (ts >>> 32).toUInt32 ++ wordBytes ts.toUInt32 ++ wordBytes (UInt32.ofNat size) ++
        wordBytes (UInt32.ofNat size)) := by
  simp only [packetHead, putWord, List.append_assoc]

theorem epbBlock_eq (ts : UInt64) (data : List UInt8) :
    epbBlock ts data = framed 6 (packetBody 0 ts data [0, 0, 0, 0]) := by
  have hhead : 4 ∣ (packetHead 0 ts data.length).length := by
    rw [packetHead_length]
    decide
  have hpadded : 4 ∣ (packetHead 0 ts data.length ++ data ++
      List.replicate (padding data.length) 0).length := by
    have hpad := dvd_add_padding data.length
    simp only [List.length_append, packetHead_length, List.length_replicate]
    omega
  rw [← sealBlock_eq, epbBlock, putData, putPad_append hhead, putOption_end hpadded,
    packetHead_eq, packetBody]
  simp only [List.append_assoc]

theorem infoBlock_eq (ts : UInt64) (str : List UInt8) :
    infoBlock ts str = framed 6 (packetBody 1 ts (syslogTag ++ str) []) := by
  have hhead : 4 ∣ (packetHead 1 ts (syslogTag.length + str.length)).length := by
    rw [packetHead_length]
    decide
  rw [← sealBlock_eq, infoBlock, putData, putData, List.append_assoc, putPad_append hhead,
    packetHead_eq, packetBody, ← List.length_append]
  simp only [List.append_assoc, List.append_nil]

/-! ## Options -/

/-- The bytes a 16-bit value takes in the file. -/
def halfBytes (value : UInt16) : List UInt8 := [value.toUInt8, (value >>> 8).toUInt8]

theorem leNat_halfBytes (v : UInt16) : leNat (halfBytes v) = v.toNat := by
  have hlt := v.toNat_lt
  have h0 : v.toUInt8.toNat = v.toNat % 256 := UInt16.toNat_toUInt8 v
  have h8 : (v >>> 8).toUInt8.toNat = v.toNat / 256 % 256 := by
    rw [UInt16.toNat_toUInt8, UInt16.toNat_shiftRight]
    show v.toNat >>> 8 % 256 = _
    rw [Nat.shiftRight_eq_div_pow]
  simp only [halfBytes, leNat, h0, h8]
  omega

theorem readNat_halfBytes (v : UInt16) (rest : List UInt8) :
    readNat 2 (halfBytes v ++ rest) = some (v.toNat, rest) := by
  have hlen : (halfBytes v).length = 2 := rfl
  rw [readNat_append hlen, leNat_halfBytes]

/-- An option as `put_option` puts it. -/
def BlockOption.bytes (o : BlockOption) : List UInt8 :=
  halfBytes (UInt16.ofNat o.code) ++ halfBytes (UInt16.ofNat o.value.length) ++ o.value ++
    List.replicate (padding o.value.length) 0

/-- Some options and the end-of-options mark. -/
def optionBytes (os : List BlockOption) : List UInt8 :=
  (os.map BlockOption.bytes).flatten ++ [0, 0, 0, 0]

/-- The option can be told from the end mark, and fits its length field. -/
def BlockOption.Plain (o : BlockOption) : Prop :=
  0 < o.code ∧ o.code < 2 ^ 16 ∧ o.value.length < 2 ^ 16

theorem readOptions_cons {o : BlockOption} (h : o.Plain) (fuel : Nat) (rest : List UInt8) :
    readOptions (fuel + 1) (o.bytes ++ rest) = (readOptions fuel rest).map (o :: ·) := by
  obtain ⟨hpos, hcode, hlen⟩ := h
  have hc : (UInt16.ofNat o.code).toNat = o.code := UInt16.toNat_ofNat_of_lt' hcode
  have hl : (UInt16.ofNat o.value.length).toNat = o.value.length := UInt16.toNat_ofNat_of_lt' hlen
  -- the first byte, to enter the reader
  obtain ⟨b, bs, hb⟩ : ∃ b bs, o.bytes ++ rest = b :: bs := ⟨_, _, rfl⟩
  rw [hb, readOptions, ← hb]
  simp only [BlockOption.bytes, List.append_assoc, readNat_halfBytes, Option.bind_eq_bind,
    Option.bind_some, hc, hl]
  rw [readBytes_append rfl]
  simp only [Option.bind_some]
  rw [readBytes_append List.length_replicate]
  simp only [Option.bind_some]
  rw [if_neg (Nat.pos_iff_ne_zero.mp hpos)]
  cases readOptions fuel rest <;> rfl

theorem readOptions_optionBytes {os : List BlockOption} (h : ∀ o ∈ os, o.Plain) {fuel : Nat}
    (hfuel : os.length < fuel) : readOptions fuel (optionBytes os) = some os := by
  induction os generalizing fuel with
  | nil =>
      cases fuel with
      | zero => simp at hfuel
      | succ fuel => rfl
  | cons o os ih =>
      cases fuel with
      | zero => simp at hfuel
      | succ fuel =>
          have hrest := ih (fun x hx => h x (List.mem_cons_of_mem _ hx))
            (Nat.lt_of_succ_lt_succ hfuel)
          rw [optionBytes, List.map_cons, List.flatten_cons, List.append_assoc,
            readOptions_cons (h o List.mem_cons_self)]
          rw [optionBytes] at hrest
          rw [hrest]
          rfl

theorem putOption_eq {block : List UInt8} (h : 4 ∣ block.length) (code : UInt16)
    (value : List UInt8) :
    putOption code value block = block ++ BlockOption.bytes ⟨code.toNat, value⟩ := by
  have hhead : 4 ∣ (putHalf (UInt16.ofNat value.length) (putHalf code block)).length := by
    rw [putHalf_length, putHalf_length]
    omega
  rw [putOption, putData, putPad_append hhead, BlockOption.bytes, UInt16.ofNat_toNat]
  simp only [putHalf, halfBytes, List.append_assoc]

theorem dvd_bytes_length (o : BlockOption) : 4 ∣ o.bytes.length := by
  have hpad := dvd_add_padding o.value.length
  simp only [BlockOption.bytes, halfBytes, List.length_append, List.length_cons, List.length_nil,
    List.length_replicate]
  omega

/-! ## Headers -/

/-- The options of an interface description. -/
def interfaceOptions (name description : String) : List BlockOption :=
  [⟨2, chars name⟩, ⟨3, chars description⟩, ⟨9, [9]⟩]

/-- The body of an interface description. -/
def interfaceBody (linkType : UInt16) (name description : String) : List UInt8 :=
  halfBytes linkType ++ halfBytes 0 ++ wordBytes 0xffff ++
    optionBytes (interfaceOptions name description)

/-- Behind an aligned block an option leaves an aligned block. -/
theorem dvd_append_bytes {block : List UInt8} (h : 4 ∣ block.length) (o : BlockOption) :
    4 ∣ (block ++ o.bytes).length := by
  rw [List.length_append]
  exact Nat.dvd_add h (dvd_bytes_length o)

/-- `if_tsresol`, which is put without `put_option`. -/
theorem putTsresol (block : List UInt8) :
    putWord 9 (putHalf 1 (putHalf 9 block)) = block ++ BlockOption.bytes ⟨9, [9]⟩ := by
  simp only [putWord, putHalf, List.append_assoc]
  rfl

theorem interfaceHeader_eq (linkType : UInt16) (name description : String) :
    interfaceHeader linkType name description =
      framed 1 (interfaceBody linkType name description) := by
  have hfixed : 4 ∣ (putWord 0xffff (putHalf 0 (putHalf linkType (writeBlockType 1)))).length := by
    simp
  have hname := dvd_append_bytes hfixed ⟨(2 : UInt16).toNat, chars name⟩
  have hdescription := dvd_append_bytes hname ⟨(3 : UInt16).toNat, chars description⟩
  have hresol := dvd_append_bytes hdescription ⟨9, [9]⟩
  rw [← sealBlock_eq, interfaceHeader, putOption_eq hfixed, putOption_eq hname, putTsresol,
    putOption_end hresol]
  simp only [interfaceBody, optionBytes, interfaceOptions, List.map_cons, List.map_nil,
    List.flatten_cons, List.flatten_nil, List.append_nil, putWord, putHalf, halfBytes,
    List.append_assoc]
  rfl

theorem readInterface_interfaceBody (linkType : UInt16) {name description : String}
    (hn : (chars name).length < 2 ^ 16) (hd : (chars description).length < 2 ^ 16) :
    readInterface (interfaceBody linkType name description) =
      some (.interfaceDescription linkType.toNat 65535 (interfaceOptions name description)) := by
  have hplain : ∀ o ∈ interfaceOptions name description, o.Plain := by
    intro o ho
    simp only [interfaceOptions, List.mem_cons, List.not_mem_nil, or_false] at ho
    rcases ho with rfl | rfl | rfl
    · exact ⟨Nat.two_pos, Nat.lt_two_pow_self.trans (by norm_num), hn⟩
    · exact ⟨Nat.succ_pos 2, Nat.lt_two_pow_self.trans (by norm_num), hd⟩
    · exact ⟨Nat.succ_pos 8, Nat.lt_two_pow_self.trans (by norm_num), by norm_num⟩
  have hfuel : (interfaceOptions name description).length <
      (optionBytes (interfaceOptions name description)).length := by
    simp only [optionBytes, interfaceOptions, BlockOption.bytes, halfBytes, List.map_cons,
      List.map_nil, List.flatten_cons, List.flatten_nil, List.length_append, List.length_cons,
      List.length_nil, List.append_nil]
    omega
  simp only [interfaceBody, List.append_assoc, readInterface, readNat_halfBytes,
    Option.bind_eq_bind, Option.bind_some, readNat_wordBytes,
    readOptions_optionBytes hplain hfuel]
  rfl

theorem interfaceBody_length (linkType : UInt16) (name description : String) :
    4 ∣ (interfaceBody linkType name description).length ∧
      (interfaceBody linkType name description).length =
        8 + (optionBytes (interfaceOptions name description)).length := by
  have hlen : (interfaceBody linkType name description).length =
      8 + (optionBytes (interfaceOptions name description)).length := by
    rw [interfaceBody, List.length_append]
    rfl
  have h2 := dvd_bytes_length ⟨2, chars name⟩
  have h3 := dvd_bytes_length ⟨3, chars description⟩
  have h9 := dvd_bytes_length ⟨9, [9]⟩
  refine ⟨?_, hlen⟩
  rw [hlen, optionBytes, interfaceOptions]
  simp only [List.map_cons, List.map_nil, List.flatten_cons, List.flatten_nil, List.append_nil,
    List.length_append, List.length_cons, List.length_nil]
  omega

/-- **An interface description** reads back, with its three options. -/
theorem readsAs_interface (linkType : UInt16) {name description : String}
    (hn : (chars name).length < 2 ^ 8) (hd : (chars description).length < 2 ^ 8) :
    ReadsAs readBlock (interfaceHeader linkType name description)
      (.interfaceDescription linkType.toNat 65535 (interfaceOptions name description)) := by
  obtain ⟨hfour, hlen⟩ := interfaceBody_length linkType name description
  have hpad : ∀ n, padding n < 4 := fun n => Nat.mod_lt _ (by decide)
  have hp1 := hpad (chars name).length
  have hp2 := hpad (chars description).length
  rw [interfaceHeader_eq]
  refine readsAs_framed (readInterface_interfaceBody linkType (by omega) (by omega)) ?_ hfour
  rw [hlen]
  simp only [optionBytes, interfaceOptions, BlockOption.bytes, halfBytes, List.map_cons,
    List.map_nil, List.flatten_cons, List.flatten_nil, List.length_append, List.length_cons,
    List.length_nil, List.append_nil, List.length_replicate]
  have hp9 := hpad (0 + 1)
  omega

/-- The body of the section header. -/
def sectionBody : List UInt8 :=
  wordBytes 0x1a2b3c4d ++ halfBytes 1 ++ halfBytes 0 ++ wordBytes 0xffffffff ++
    wordBytes 0xffffffff ++ optionBytes [⟨2, chars "USB Sniffer 2"⟩]

/-- **The section header** reads back. -/
theorem readsAs_fileHeader :
    ReadsAs readBlock fileHeader (.sectionHeader 1 0 [⟨2, chars "USB Sniffer 2"⟩]) := by
  have heq : fileHeader = framed 0x0a0d0d0a sectionBody := by decide +kernel
  have hbody : readBody (0x0a0d0d0a : UInt32).toNat sectionBody =
      some (.sectionHeader 1 0 [⟨2, chars "USB Sniffer 2"⟩]) := by decide +kernel
  rw [heq]
  exact readsAs_framed hbody (by decide +kernel) (by decide +kernel)

/-! ## Sessions -/

/-- The call's arguments are what the frame layer passes: at most 1273
bytes of a packet, at most 511 of a text. -/
def Write.InRange : Write → Prop
  | .epb _ data => data.length ≤ 1273
  | .info _ str => str.length ≤ 511
  | .flush => True

/-- The packets a call should be read back as. -/
def Write.packets : Write → List Block
  | .epb ts data => [.enhancedPacket 0 ts.toNat data []]
  | .info ts str => [.enhancedPacket 1 ts.toNat (syslogTag ++ str) []]
  | .flush => []

/-- The blocks `pcapng_begin` should be read back as: the link type in its
16-bit field. -/
def headerBlocks (linkType : UInt32) : List Block :=
  [.sectionHeader 1 0 [⟨2, chars "USB Sniffer 2"⟩],
    .interfaceDescription (linkType.toNat % 2 ^ 16) 65535
      (interfaceOptions "usb" "Hardware USB interface"),
    .interfaceDescription 252 65535 (interfaceOptions "info" "Out of band information")]

theorem Write.InRange.fits {w : Write} (h : w.InRange) : w.Fits := by
  cases w with
  | epb ts data =>
      have hlen : data.length ≤ 1273 := h
      rw [Write.Fits, Write.block, epbBlock_length, blockBufSize]
      omega
  | info ts str =>
      have hlen : str.length ≤ 511 := h
      rw [Write.Fits, Write.block, infoBlock_length, blockBufSize]
      omega
  | flush => exact Nat.zero_le _

/-- The bytes of a call, with what they should be read back as. -/
def Write.items : Write → List (List UInt8 × Block)
  | .epb ts data => [(epbBlock ts data, .enhancedPacket 0 ts.toNat data [])]
  | .info ts str => [(infoBlock ts str, .enhancedPacket 1 ts.toNat (syslogTag ++ str) [])]
  | .flush => []

theorem Write.items_read {w : Write} (h : w.InRange) :
    ∀ i ∈ w.items, ReadsAs readBlock i.1 i.2 := by
  intro i hi
  cases w with
  | epb ts data =>
      have hlen : data.length ≤ 1273 := h
      rw [Write.items, List.mem_singleton] at hi
      rw [hi, epbBlock_eq]
      exact readsAs_packet 0 ts (by omega) rfl (by decide) (by decide)
  | info ts str =>
      have hlen : str.length ≤ 511 := h
      rw [Write.items, List.mem_singleton] at hi
      rw [hi, infoBlock_eq]
      refine readsAs_packet 1 ts ?_ rfl (by decide) (by decide)
      rw [List.length_append, syslogTag_length]
      omega
  | flush => cases hi

theorem Write.items_fst (w : Write) : (w.items.map Prod.fst).flatten = w.block := by
  cases w <;> simp [Write.items, Write.block]

theorem Write.items_snd (w : Write) : w.items.map Prod.snd = w.packets := by
  cases w <;> rfl

/-- The three headers, with what they should be read back as. -/
def headerItems (linkType : UInt32) : List (List UInt8 × Block) :=
  [fileHeader, usbHeader linkType, infoHeader].zip (headerBlocks linkType)

theorem headerItems_read (linkType : UInt32) :
    ∀ i ∈ headerItems linkType, ReadsAs readBlock i.1 i.2 := by
  have husb : ReadsAs readBlock (usbHeader linkType) (.interfaceDescription
      (linkType.toNat % 2 ^ 16) 65535 (interfaceOptions "usb" "Hardware USB interface")) := by
    rw [usbHeader, ← UInt32.toNat_toUInt16]
    exact readsAs_interface linkType.toUInt16 (by decide) (by decide)
  have hinfo : ReadsAs readBlock infoHeader (.interfaceDescription 252 65535
      (interfaceOptions "info" "Out of band information")) := by
    rw [infoHeader]
    exact readsAs_interface linktypeWiresharkUpperPdu (by decide) (by decide)
  intro i hi
  simp only [headerItems, headerBlocks, List.zip_cons_cons, List.zip_nil_right, List.mem_cons,
    List.not_mem_nil, or_false] at hi
  obtain ⟨bytes, block⟩ := i
  simp only [Prod.mk.injEq] at hi ⊢
  rcases hi with ⟨hb, hx⟩ | ⟨hb, hx⟩ | ⟨hb, hx⟩ <;> rw [hb, hx]
  · exact readsAs_fileHeader
  · exact husb
  · exact hinfo

theorem blocks_items (ws : List Write) :
    ((ws.flatMap Write.items).map Prod.fst).flatten = blocks ws := by
  induction ws with
  | nil => rfl
  | cons w ws ih =>
      rw [List.flatMap_cons, List.map_append, List.flatten_append, ih, blocks_cons,
        Write.items_fst]

theorem packets_items (ws : List Write) :
    (ws.flatMap Write.items).map Prod.snd = ws.flatMap Write.packets := by
  induction ws with
  | nil => rfl
  | cons w ws ih => rw [List.flatMap_cons, List.map_append, ih, List.flatMap_cons, Write.items_snd]

/-- The stream of a session reads back as the headers and the packets. -/
theorem readFile_session (linkType : UInt32) {ws : List Write} (h : ∀ w ∈ ws, w.InRange) :
    readFile (headers linkType ++ blocks ws) =
      some (headerBlocks linkType ++ ws.flatMap Write.packets) := by
  have hread : ∀ i ∈ headerItems linkType ++ ws.flatMap Write.items,
      ReadsAs readBlock i.1 i.2 := by
    intro i hi
    rcases List.mem_append.mp hi with hi | hi
    · exact headerItems_read linkType i hi
    · obtain ⟨w, hw, hiw⟩ := List.mem_flatMap.mp hi
      exact Write.items_read (h w hw) i hiw
  have hbytes : ((headerItems linkType ++ ws.flatMap Write.items).map Prod.fst).flatten =
      headers linkType ++ blocks ws := by
    rw [List.map_append, List.flatten_append, blocks_items]
    simp only [headerItems, headerBlocks, List.zip_cons_cons, List.zip_nil_right, List.map_cons,
      List.map_nil, List.flatten_cons, List.flatten_nil, List.append_nil, headers,
      List.append_assoc]
  have hblocks : (headerItems linkType ++ ws.flatMap Write.items).map Prod.snd =
      headerBlocks linkType ++ ws.flatMap Write.packets := by
    rw [List.map_append, packets_items]
    rfl
  have hall := readAll_flatten hread (length_le_flatten fun i hi => (hread i hi).ne_nil)
  rw [hbytes, hblocks] at hall
  exact hall

theorem headers_fit (linkType : UInt32) :
    ∀ b ∈ [fileHeader, usbHeader linkType, infoHeader], b.length ≤ blockBufSize := by
  have hfile : fileHeader.length ≤ blockBufSize := by decide +kernel
  have hinfo : infoHeader.length ≤ blockBufSize := by decide +kernel
  have hopts : (optionBytes (interfaceOptions "usb" "Hardware USB interface")).length ≤ 100 := by
    decide +kernel
  have husb : (usbHeader linkType).length ≤ blockBufSize := by
    rw [usbHeader, interfaceHeader_eq, framed_length, (interfaceBody_length _ _ _).2, blockBufSize]
    omega
  intro b hb
  simp only [List.mem_cons, List.not_mem_nil, or_false] at hb
  rcases hb with hb | hb | hb <;> rw [hb]
  · exact hfile
  · exact husb
  · exact hinfo

/-- **The file is well-formed pcapng and says what was written.** Every
block of a session fits its buffer and every call goes through; when
`pcapng_close` is through, a reader of the format takes the whole file,
as the section header, the two interface descriptions and one enhanced
packet for each call, with its interface, timestamp and payload. -/
theorem session_readable (pre post : List Write) (linkType : UInt32)
    (hrange : ∀ w ∈ pre ++ post, w.InRange) (hpend : (blocks pre).length < stagingLimit) :
    (∀ b ∈ [fileHeader, usbHeader linkType, infoHeader] ++ (pre ++ post).map Write.block,
      b.length ≤ blockBufSize) ∧
    (∀ s c more, Relation.ReflTransGen Step (pcapngOpen (session pre linkType post)) s →
      s.todo = [] → s.calls = c :: more → ∃ s', call { s with calls := more } c = some s') ∧
    (∀ s, Relation.ReflTransGen WritingStep (pcapngOpen (session pre linkType post)) s →
      s.closed = true → readFile s.file =
        some (headerBlocks linkType ++ (pre ++ post).flatMap Write.packets)) := by
  have hfits : ∀ w ∈ pre ++ post, w.Fits := fun w hw => (hrange w hw).fits
  have hopen : Valid (pcapngOpen (session pre linkType post)) :=
    valid_pcapngOpen (fun w hw => hfits w (List.mem_append_left _ hw)) hpend
  refine ⟨fun b hb => ?_, fun s c more hrun ht hc => ?_, fun s hrun hc => ?_⟩
  · rcases List.mem_append.mp hb with hb | hb
    · exact headers_fit linkType b hb
    · obtain ⟨w, hw, rfl⟩ := List.mem_map.mp hb
      exact hfits w hw
  · obtain ⟨s', hcall, -⟩ := (hopen.run hrun).script.called ht hc
    exact ⟨s', hcall⟩
  · obtain ⟨hv, h⟩ := flow_run pre post linkType hrun
    have hblocks : blocks pre ++ blocks post = blocks (pre ++ post) := by
      rw [blocks, blocks, blocks, List.map_append, List.flatten_append]
    rw [h.file_of_closed hv.course hc, List.append_assoc, hblocks]
    exact readFile_session linkType hrange

theorem session_readable_shortWrites :
    ∃ s, exec (pcapngOpen (session [.epb 5 [1, 2, 3]] 288 [.info 7 [65]])) shortWrites = some s ∧
      readFile s.file = some (headerBlocks 288 ++
        [.enhancedPacket 0 5 [1, 2, 3] [], .enhancedPacket 1 7 (syslogTag ++ [65]) []]) := by
  have hsome : ((exec (pcapngOpen (session [.epb 5 [1, 2, 3]] 288 [.info 7 [65]])) shortWrites).map
      (·.closed)) = some true := by decide +kernel
  obtain ⟨s, hs, hc⟩ := Option.map_eq_some_iff.mp hsome
  have hsession := session_readable [.epb 5 [1, 2, 3]] [.info 7 [65]] 288
    (by simp [Write.InRange]) (by simp [blocks, Write.block, epbBlock_length, stagingLimit])
  exact ⟨s, hs, hsession.2.2 s (exec_run hs) hc⟩

end UsbSniffer.Pcapng
