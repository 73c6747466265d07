import UsbSniffer.Uhsif

/-!
# The stream layer as the code has it

`stream.c`: the staging buffer, the two parser states and the callbacks.
The buffer is a flat memory with the offset of the first unprocessed
byte (`head`) and their number (`len`); the three `memmove` exits, the
lazy compaction and the buffer-full path are the source's. A function
that calls back returns the calls it makes, in order.

The `int` fields are naturals: `head`, `len` and `cap` never go negative
and `head + len ≤ cap` in every state the layer reaches (`Stream.Wf`).
`log_print` only writes the log and is left out, as is `user`, which the
callbacks pass through.
-/

namespace UsbSniffer

open Uhsif

/-- A call the stream layer makes. -/
inductive Callback where
  | data (payload : List UInt8)
  | ack
  | rsync
  deriving DecidableEq, Repr

/-- `STREAM_SCAN` / `STREAM_BLOCK`. -/
inductive StreamState where
  | scan
  | block
  deriving DecidableEq, Repr

/-- The control fields of `struct stream`: the parser state and the
sequence tracker. -/
structure Ctl where
  state : StreamState
  lastSeq : UInt8
  haveSeq : Bool
  good : Nat
  deriving DecidableEq, Repr

/-- `struct stream`. -/
structure Stream extends Ctl where
  buf : Ptr
  cap : Nat
  head : Nat
  len : Nat

/-- `STREAM_BUF_SIZE`. -/
def streamBufSize : Nat := 1048576

/-- `SCAN_KEEP_TAIL`. -/
def scanKeepTail : Nat := 3

/-- `memmove` inside one buffer. -/
def memmove (buf : Ptr) (dst src n : Nat) : Ptr :=
  fun i => if dst ≤ i ∧ i < dst + n then buf (src + (i - dst)) else buf i

/-- `memcpy` of a byte list into a buffer. -/
def memcpy (buf : Ptr) (dst : Nat) (data : List UInt8) : Ptr :=
  fun i => if dst ≤ i ∧ i < dst + data.length then data.getD (i - dst) 0 else buf i

/-- The `n` bytes at a pointer. -/
def bytesAt (p : Ptr) (n : Nat) : List UInt8 := (List.range n).map p

/-- A copy to the end of `n` bytes appends to them. -/
theorem bytesAt_memcpy (p : Ptr) (n : Nat) (data : List UInt8) :
    bytesAt (memcpy p n data) (n + data.length) = bytesAt p n ++ data := by
  refine List.ext_getElem (by simp [bytesAt]) fun i h1 h2 => ?_
  by_cases hi : i < n
  · have hout : ¬ (n ≤ i ∧ i < n + data.length) := by omega
    simp [bytesAt, memcpy, hi, hout]
  · have hin : n ≤ i ∧ i < n + data.length := by
      simp only [bytesAt, List.length_map, List.length_range] at h1
      omega
    have hlt : i - n < data.length := by omega
    rw [List.getElem_append_right (by simpa [bytesAt] using Nat.le_of_not_lt hi)]
    simp [bytesAt, memcpy, hin, hlt]

/-- `header_valid`: the payload length in words, when the header at `hdr`
is a legal one. -/
def headerValid (hdr : Ptr) : Option Nat :=
  let w0 := le32 hdr
  let w1 := le32 (hdr.add 4)
  let w2 := le32 (hdr.add 8)
  let w3 := le32 (hdr.add 12)
  let len := ((w3 >>> 12) &&& 0xfff).toNat
  if !blkHdrOk w0 w1 w2 w3 then none
  else if w1 &&& 0xfffff000 ≠ 0 then none
  else if len ≠ 0 ∧ ¬ (minPayloadWords ≤ len ∧ len ≤ maxPayloadWords) then none
  else some len

/-- The scan's filter: `(u16)uhsif_le32(p) == UHSIF_BLK_MAGIC16`. -/
def magicAt (p : Ptr) : Bool := (le32 p).toUInt16 == blkMagic16

/-- What both resynchronization branches do to the tracker. -/
def Ctl.resync (c : Ctl) : Ctl := { c with state := .scan, haveSeq := false, good := 0 }

/-- The sequence check of `accept_block`: a jump is reported and forgets
the tracker, then the block's own number is remembered. -/
def Ctl.trackSeq (c : Ctl) (seq : UInt8) : Ctl × List Callback :=
  let jump := c.haveSeq && seq != c.lastSeq + 1
  let good := if jump then 0 else c.good
  ({ c with
      lastSeq := seq
      haveSeq := true
      good := if good = 0 then 1 else if good < 2 then good + 1 else good },
    if jump then [.rsync] else [])

/-- `ack_cb` for an empty payload, `data_cb` otherwise. -/
def deliver (payload : List UInt8) (payloadLen : Nat) : Callback :=
  if payloadLen = 0 then .ack else .data payload

namespace Stream

/-- `stream_new`: `os_alloc` zeroes the structure and the buffer. -/
def new : Stream where
  state := .scan
  lastSeq := 0
  haveSeq := false
  good := 0
  buf := fun _ => 0
  cap := streamBufSize
  head := 0
  len := 0

/-- `compact`. -/
def compact (s : Stream) : Stream :=
  if s.head > 0 then { s with buf := memmove s.buf 0 s.head s.len, head := 0 } else s

/-- `buf_at`. -/
def bufAt (s : Stream) (off : Nat) : Ptr := fun i => s.buf (s.head + off + i)

/-- `s->head += n; s->len -= n`. -/
def advance (s : Stream) (n : Nat) : Stream :=
  { s with head := s.head + n, len := s.len - n }

/-- Keep the bytes from offset `off` on, moved to the front: the common
shape of the three `memmove` exits of the scan. -/
def keepFrom (s : Stream) (off : Nat) : Stream :=
  { s with buf := memmove s.buf 0 (s.head + off) (s.len - off), head := 0, len := s.len - off }

/-- `accept_block`. -/
def acceptBlock (s : Stream) (payloadLen : Nat) : Stream × List Callback :=
  let hdr := s.bufAt 0
  let span := ackSize + 4 * payloadLen
  let tracked := s.toCtl.trackSeq (blkSeq hdr)
  let call := deliver (bytesAt (hdr.add ackSize) (4 * payloadLen)) payloadLen
  ({ s.advance span with toCtl := { tracked.1 with state := .block } }, tracked.2 ++ [call])

/-- The scan loop: the first offset `0 ≤ i ≤ len - 4` with the magic. -/
def findMagic (s : Stream) : Option Nat :=
  (List.range (s.len - 3)).find? fun i => magicAt (s.bufAt i)

/-- The calls of a branch, in front of those the loop goes on to make. -/
def andThen (calls : List Callback) (r : Stream × List Callback) : Stream × List Callback :=
  (r.1, calls ++ r.2)

/-- `process_available`. -/
def processAvailable (s : Stream) : Stream × List Callback :=
  if _hlen : s.len < ackSize then (s, [])
  else
    match _hstate : s.state with
    | .block =>
        match headerValid (s.bufAt 0) with
        | some n =>
            if s.len < ackSize + 4 * n then
              -- the full block is not here yet
              if ackSize + 4 * n ≤ s.cap then (s, [])
              else andThen [.rsync] (processAvailable { s with toCtl := s.toCtl.resync })
            else
              let r := s.acceptBlock n
              andThen r.2 (processAvailable r.1)
        | none => andThen [.rsync] (processAvailable { s with toCtl := s.toCtl.resync })
    | .scan =>
        match s.findMagic with
        | none =>
            let keep := min s.len scanKeepTail
            if s.head + s.len > 0 ∧ keep + ackSize ≤ s.cap then
              (s.keepFrom (s.len - keep), [])
            else (s, [])
        | some found =>
            if s.len - found < ackSize then (s.keepFrom found, [])
            else
              match headerValid (s.bufAt found) with
              | none => processAvailable (s.advance (found + 1))
              | some n =>
                  if s.len - found < ackSize + 4 * n then (s.keepFrom found, [])
                  else
                    let r := (s.advance found).acceptBlock n
                    andThen r.2 (processAvailable r.1)
termination_by 2 * s.len + (if s.state = .block then 1 else 0)
decreasing_by
  all_goals simp_all [Ctl.resync, acceptBlock, advance, ackSize]
  all_goals omega

/-- `memcpy(&s->buf[s->head + s->len], data, size); s->len += size`. -/
def append (s : Stream) (data : List UInt8) : Stream :=
  { s with buf := memcpy s.buf (s.head + s.len) data, len := s.len + data.length }

/-- The loop of `stream_feed`. A pass of the buffer-full branch that
copies nothing would repeat forever, so the loop is cut off by a number
of passes; `none` is a loop that did not end within it. -/
def feedLoop : Nat → Stream → List UInt8 → Option (Stream × List Callback)
  | 0, _, _ => none
  | passes + 1, s, data =>
      if data.length = 0 then some s.processAvailable
      else
        -- lazy compaction: only when the append would overflow
        let s₁ := if s.head ≠ 0 ∧ s.len + data.length > s.cap - s.head then
            { s with buf := memmove s.buf 0 s.head s.len, head := 0 }
          else s
        if s₁.len + data.length ≤ s₁.cap - s₁.head then
          some (s₁.append data).processAvailable
        else
          -- buffer full: copy as much as fits and process it
          let s₂ := s₁.compact
          let part := min data.length (s₂.cap - s₂.len)
          let s₃ := s₂.append (data.take part)
          if (data.drop part).length = 0 then some s₃.processAvailable
          else
            let r := s₃.processAvailable
            (feedLoop passes r.1.compact (data.drop part)).map (andThen r.2)

/-- `stream_feed`: one pass per input byte is more than the loop takes. -/
def feed (s : Stream) (data : List UInt8) : Option (Stream × List Callback) :=
  feedLoop (data.length + 1) s data

end Stream

end UsbSniffer
