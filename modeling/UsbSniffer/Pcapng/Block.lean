import Mathlib.Tactic

/-!
# The blocks of a pcapng file

`pcapng.c`: the assembly of one block in `p->block`, and the blocks the
program writes. The bytes put so far are a list, and `ptr` is its
length; that it stays within `PCAPNG_BLOCK_BUF_SIZE` is for the caller to
know (`Write.Fits`).
-/

namespace UsbSniffer.Pcapng

/-- `PCAPNG_BLOCK_BUF_SIZE`. -/
def blockBufSize : Nat := 4096

/-- `LINKTYPE_WIRESHARK_UPPER_PDU`. -/
def linktypeWiresharkUpperPdu : UInt16 := 252

/-- The bytes of a string literal. -/
def chars (s : String) : List UInt8 := s.toList.map fun c => UInt8.ofNat c.toNat

/-- The bytes a 32-bit value takes in the file. -/
def wordBytes (value : UInt32) : List UInt8 :=
  [value.toUInt8, (value >>> 8).toUInt8, (value >>> 16).toUInt8, (value >>> 24).toUInt8]

/-! ## Assembly -/

def putPad (block : List UInt8) : List UInt8 :=
  block ++ List.replicate ((4 - block.length % 4) % 4) 0

def putHalf (value : UInt16) (block : List UInt8) : List UInt8 :=
  block ++ [value.toUInt8, (value >>> 8).toUInt8]

def putWord (value : UInt32) (block : List UInt8) : List UInt8 := block ++ wordBytes value

def putData (data : List UInt8) (block : List UInt8) : List UInt8 := block ++ data

def putOption (index : UInt16) (str : List UInt8) (block : List UInt8) : List UInt8 :=
  putPad (putData str (putHalf (UInt16.ofNat str.length) (putHalf index block)))

/-- `write_block_type`: the type and the place of the total length. -/
def writeBlockType (type : UInt32) : List UInt8 := putWord 0 (putWord type [])

/-- What `send_buffer` does to the block before it passes it on: the
total length goes to the end and into its place at the front. -/
def sealBlock (block : List UInt8) : List UInt8 :=
  let size := UInt32.ofNat (block.length + 4)
  ((((putWord size block).set 4 size.toUInt8).set 5 (size >>> 8).toUInt8).set 6
    (size >>> 16).toUInt8).set 7 (size >>> 24).toUInt8

/-! ## The blocks -/

/-- `write_file_header`. -/
def fileHeader : List UInt8 :=
  writeBlockType 0x0a0d0d0a
    |> putWord 0x1a2b3c4d
    |> putHalf 1
    |> putHalf 0
    |> putWord 0xffffffff
    |> putWord 0xffffffff
    |> putOption 0x0002 (chars "USB Sniffer 2")
    |> putOption 0x0000 []
    |> sealBlock

/-- What `write_usb_header` and `write_info_header` share. -/
def interfaceHeader (linkType : UInt16) (name description : String) : List UInt8 :=
  writeBlockType 1
    |> putHalf linkType
    |> putHalf 0
    |> putWord 0xffff
    |> putOption 0x0002 (chars name)
    |> putOption 0x0003 (chars description)
    |> putHalf 9
    |> putHalf 1
    |> putWord 9
    |> putOption 0x0000 []
    |> sealBlock

/-- `write_usb_header`; `(u16)link_type` keeps the low half. -/
def usbHeader (linkType : UInt32) : List UInt8 :=
  interfaceHeader linkType.toUInt16 "usb" "Hardware USB interface"

/-- `write_info_header`. -/
def infoHeader : List UInt8 :=
  interfaceHeader linktypeWiresharkUpperPdu "info" "Out of band information"

/-- The fixed part of an enhanced packet block, up to the data. -/
def packetHead (interface : UInt32) (ts : UInt64) (size : Nat) : List UInt8 :=
  writeBlockType 6
    |> putWord interface
    |> putWord (ts >>> 32).toUInt32
    |> putWord ts.toUInt32
    |> putWord (UInt32.ofNat size)
    |> putWord (UInt32.ofNat size)

/-- `pcapng_write_epb`, up to the block it sends. -/
def epbBlock (ts : UInt64) (data : List UInt8) : List UInt8 :=
  packetHead 0 ts data.length
    |> putData data
    |> putPad
    |> putOption 0x0000 []
    |> sealBlock

/-- `hdr` of `pcapng_write_info`: the PDU tag that names the syslog
dissector, and the end of the tags. -/
def syslogTag : List UInt8 := [0, 12, 0, 6] ++ chars "syslog" ++ [0, 0, 0, 0]

/-- `pcapng_write_info`, up to the block it sends. -/
def infoBlock (ts : UInt64) (str : List UInt8) : List UInt8 :=
  packetHead 1 ts (syslogTag.length + str.length)
    |> putData syslogTag
    |> putData str
    |> putPad
    |> sealBlock

/-! ## Lengths -/

@[simp] theorem wordBytes_length (value : UInt32) : (wordBytes value).length = 4 := rfl

@[simp] theorem putWord_length (value : UInt32) (block : List UInt8) :
    (putWord value block).length = block.length + 4 := by
  simp [putWord]

@[simp] theorem putHalf_length (value : UInt16) (block : List UInt8) :
    (putHalf value block).length = block.length + 2 := by
  simp [putHalf]

@[simp] theorem putData_length (data block : List UInt8) :
    (putData data block).length = block.length + data.length := by
  simp [putData]

/-- Padding goes up to the next multiple of four. -/
@[simp] theorem putPad_length (block : List UInt8) :
    (putPad block).length = (block.length + 3) / 4 * 4 := by
  simp only [putPad, List.length_append, List.length_replicate]
  omega

@[simp] theorem putOption_length (index : UInt16) (str block : List UInt8) :
    (putOption index str block).length = (block.length + str.length + 7) / 4 * 4 := by
  simp only [putOption, putPad_length, putData_length, putHalf_length]
  omega

@[simp] theorem writeBlockType_length (type : UInt32) : (writeBlockType type).length = 8 := by
  simp [writeBlockType]

@[simp] theorem sealBlock_length (block : List UInt8) : (sealBlock block).length = block.length + 4 := by
  simp [sealBlock]

@[simp] theorem packetHead_length (interface : UInt32) (ts : UInt64) (size : Nat) :
    (packetHead interface ts size).length = 28 := by
  simp [packetHead]

theorem syslogTag_length : syslogTag.length = 14 := by decide

theorem epbBlock_length (ts : UInt64) (data : List UInt8) :
    (epbBlock ts data).length = (data.length + 3) / 4 * 4 + 36 := by
  simp only [epbBlock, sealBlock_length, putOption_length, putPad_length, putData_length,
    packetHead_length, List.length_nil]
  omega

theorem infoBlock_length (ts : UInt64) (str : List UInt8) :
    (infoBlock ts str).length = (str.length + 17) / 4 * 4 + 32 := by
  simp only [infoBlock, sealBlock_length, putPad_length, putData_length, packetHead_length,
    syslogTag_length]
  omega

end UsbSniffer.Pcapng
