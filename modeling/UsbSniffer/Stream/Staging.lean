import UsbSniffer.Stream.Delivery

/-!
# The staging buffer with its `int` fields

`stream.c` once more, with the fields of `struct stream` as the integers
they are and with everything a run does to the buffer written down: what
it reads and writes and where, the fields after every assignment, what it
calls, and what becomes of every byte it takes out. Nothing here keeps an
offset inside the buffer. That the source does is `Event.Safe` of every
event (`feed_safe`).

The layer of `Stream/Model.lean` has natural numbers in these fields. The
two agree on every stream the layer reaches (`feedLoop_moves`), which
carries the bounds over.
-/

namespace UsbSniffer

open Uhsif

/-- The `int` maximum. -/
def intMax : Int := 2147483647

/-- `struct stream`. -/
structure Staging extends Ctl where
  buf : Ptr
  cap : Int
  head : Int
  len : Int

/-- What a run does, in order, each with the fields it happens under. -/
inductive Event where
  /-- the fields after an assignment -/
  | cursor (s : Staging)
  /-- `n` bytes are read from `buf_at(s, off)` on -/
  | reads (s : Staging) (off n : Int)
  /-- `n` bytes are written from `buf[dst]` on -/
  | writes (s : Staging) (dst n : Int)
  /-- `s->len + size` is computed -/
  | sum (v : Int)
  /-- the buffer-full branch copies `part` bytes -/
  | filled (part : Int)
  /-- `process_available` returns and leaves `len` bytes -/
  | returned (len : Int)
  | called (call : Callback)
  /-- a block is taken out, and `call` is made for it -/
  | accepted (block : List UInt8) (call : Callback)
  /-- bytes are dropped -/
  | skipped (state : StreamState) (bytes : List UInt8)

namespace Staging

/-- `stream_new`. -/
def new : Staging where
  state := .scan
  lastSeq := 0
  haveSeq := false
  good := 0
  buf := fun _ => 0
  cap := streamBufSize
  head := 0
  len := 0

/-- `buf_at`. -/
def bufAt (s : Staging) (off : Int) : Ptr := fun i => s.buf (s.head + off + i).toNat

/-- The unprocessed bytes. -/
def pending (s : Staging) : List UInt8 := bytesAt (s.bufAt 0) s.len.toNat

/-- `memmove(s->buf, buf_at(s, off), n)`, with `n` bytes left. -/
def keep (s : Staging) (off n : Int) : Staging × List Event :=
  let s' := { s with buf := memmove s.buf 0 (s.head + off).toNat n.toNat, head := 0, len := n }
  (s', [.reads s off n, .writes s 0 n, .cursor s'])

/-- `compact`. -/
def compact (s : Staging) : Staging × List Event :=
  if s.head > 0 then s.keep 0 s.len else (s, [])

/-- `s->head += n; s->len -= n`. -/
def advance (s : Staging) (n : Int) : Staging :=
  { s with head := s.head + n, len := s.len - n }

/-- Nothing but the first `n` bytes is dropped. -/
def skip (s : Staging) (n : Int) : Event := .skipped s.state (bytesAt (s.bufAt 0) n.toNat)

/-- `accept_block`. -/
def acceptBlock (s : Staging) (payloadLen : Nat) : Staging × List Event :=
  let hdr := s.bufAt 0
  let span := ackSize + 4 * payloadLen
  let tracked := s.toCtl.trackSeq (blkSeq hdr)
  let call := deliver (bytesAt (hdr.add ackSize) (4 * payloadLen)) payloadLen
  let s' := { s.advance span with toCtl := { tracked.1 with state := .block } }
  (s', .reads s 0 ackSize :: tracked.2.map .called ++
    [.reads s ackSize (4 * payloadLen), .accepted (bytesAt hdr span) call, .cursor s'])

/-- The turns of the scan loop from offset `i` on. -/
def scanFrom (s : Staging) : Nat → Int → Option Int × List Event
  | 0, _ => (none, [])
  | turns + 1, i =>
      let look := Event.reads s i 4
      if magicAt (s.bufAt i) = true then (some i, [look])
      else
        let r := s.scanFrom turns (i + 1)
        (r.1, look :: r.2)

/-- The scan loop, `for (i = 0; i <= s->len - 4; i++)`. -/
def findMagic (s : Staging) : Option Int × List Event := s.scanFrom (s.len - 4 + 1).toNat 0

/-- Events in front of those that follow. -/
def andThen (events : List Event) (r : Staging × List Event) : Staging × List Event :=
  (r.1, events ++ r.2)

/-- A turn of the loop of `process_available` in the state
`STREAM_BLOCK`, and whether the loop goes on. -/
def turnBlock (s : Staging) : Bool × Staging × List Event :=
  let look := Event.reads s 0 ackSize
  let resync := (true, { s with toCtl := s.toCtl.resync }, [look, .called .rsync])
  match headerValid (s.bufAt 0) with
  | some n =>
      if s.len < ackSize + 4 * n then
        -- the full block is not here yet
        if (ackSize + 4 * n : Int) ≤ s.cap then (false, s, [look]) else resync
      else
        let r := s.acceptBlock n
        (true, r.1, look :: r.2)
  | none => resync

/-- A turn in the state `STREAM_SCAN`. -/
def turnScan (s : Staging) : Bool × Staging × List Event :=
  let scan := s.findMagic
  match scan.1 with
  | none =>
      let tail := min s.len scanKeepTail
      if s.head + s.len > 0 ∧ tail + ackSize ≤ s.cap then
        let r := s.keep (s.len - tail) tail
        (false, r.1, scan.2 ++ s.skip (s.len - tail) :: r.2)
      else (false, s, scan.2)
  | some found =>
      let held := s.keep found (s.len - found)
      if s.len - found < ackSize then (false, held.1, scan.2 ++ s.skip found :: held.2)
      else
        let look := Event.reads s found ackSize
        match headerValid (s.bufAt found) with
        | none =>
            -- a bogus magic: one byte further
            let s' := s.advance (found + 1)
            (true, s', scan.2 ++ [look, s.skip (found + 1), .cursor s'])
        | some n =>
            if s.len - found < ackSize + 4 * n then
              (false, held.1, scan.2 ++ look :: s.skip found :: held.2)
            else
              let s' := s.advance found
              let r := s'.acceptBlock n
              (true, r.1, scan.2 ++ look :: s.skip found :: .cursor s' :: r.2)

/-- One turn. -/
def turn (s : Staging) : Bool × Staging × List Event :=
  if s.len < ackSize then (false, s, [])
  else
    match s.state with
    | .block => s.turnBlock
    | .scan => s.turnScan

/-- The loop, cut off after a number of turns. -/
def processLoop : Nat → Staging → Option (Staging × List Event)
  | 0, _ => none
  | turns + 1, s =>
      let r := s.turn
      if r.1 = true then (processLoop turns r.2.1).map (andThen r.2.2) else some r.2

/-- `process_available`. A turn takes a byte out or gives up the
alignment, so this many turns are more than the loop takes. -/
def processAvailable (s : Staging) : Option (Staging × List Event) :=
  (s.processLoop (2 * s.len.toNat + 2)).map fun r => (r.1, r.2 ++ [.returned r.1.len])

/-- `memcpy(&s->buf[s->head + s->len], data, size); s->len += size`. -/
def append (s : Staging) (data : List UInt8) : Staging × List Event :=
  let s' := { s with
    buf := memcpy s.buf (s.head + s.len).toNat data, len := s.len + data.length }
  (s', [.writes s (s.head + s.len) data.length, .cursor s'])

/-- The loop of `stream_feed` and the call behind it, cut off after a
number of passes. -/
def feedLoop : Nat → Staging → List UInt8 → Option (Staging × List Event)
  | 0, _, _ => none
  | passes + 1, s, data =>
      let size : Int := data.length
      if ¬ size > 0 then s.processAvailable.map (andThen [.cursor s])
      else
        let moved := if s.head ≠ 0 ∧ s.len + size > s.cap - s.head then s.keep 0 s.len else (s, [])
        let start := [.cursor s, .sum (s.len + size)] ++ moved.2
        if moved.1.len + size ≤ moved.1.cap - moved.1.head then
          let whole := moved.1.append data
          whole.1.processAvailable.map (andThen (start ++ whole.2))
        else
          let front := moved.1.compact
          let room := front.1.cap - front.1.len
          let part := min size room
          let full := front.1.append (data.take part.toNat)
          let events := start ++ front.2 ++ .filled part :: full.2
          if size - part = 0 then full.1.processAvailable.map (andThen events)
          else
            full.1.processAvailable.bind fun r =>
              let back := r.1.compact
              (feedLoop passes back.1 (data.drop part.toNat)).map
                (andThen (events ++ r.2 ++ back.2))

/-- `stream_feed`: one pass per input byte is more than the loop takes. -/
def feed (s : Staging) (data : List UInt8) : Option (Staging × List Event) :=
  s.feedLoop (data.length + 1) data

end Staging

/-! ## What is safe -/

/-- The bytes an event takes out of the buffer. -/
def Event.taken : Event → List UInt8
  | .accepted block _ => block
  | .skipped _ bytes => bytes
  | _ => []

/-- The call an event makes. -/
def Event.call : Event → Option Callback
  | .called call => some call
  | .accepted _ call => some call
  | _ => none

/-- What must hold of an event. Offsets count from `head`, so that a read
of `n` bytes at `off` stays inside `head..head+len` when `off + n` is at
most `len`. -/
def Event.Safe : Event → Prop
  | .cursor s => 0 ≤ s.head ∧ 0 ≤ s.len ∧ s.head + s.len ≤ s.cap ∧ s.cap = streamBufSize
  | .reads s off n => 0 ≤ off ∧ 0 ≤ n ∧ off + n ≤ s.len
  | .writes s dst n => 0 ≤ dst ∧ 0 ≤ n ∧ dst + n ≤ s.cap
  | .sum v => v ≤ intMax
  | .filled part => 1 ≤ part
  | .returned len => len < blkMaxSize
  | .called call => call = .rsync
  | .accepted block call => ∃ n, headerValid (ptrAt block 0) = some n ∧
      block.length = ackSize + 4 * n ∧ call = deliver (block.drop ackSize) n
  | .skipped state _ => state = .scan

namespace Stream

open Lib BlockLayer

/-- The fields as integers. -/
def staging (s : Stream) : Staging := ⟨s.toCtl, s.buf, s.cap, s.head, s.len⟩

@[simp] theorem staging_toCtl (s : Stream) : s.staging.toCtl = s.toCtl := rfl

@[simp] theorem staging_cap (s : Stream) : s.staging.cap = s.cap := rfl

@[simp] theorem staging_head (s : Stream) : s.staging.head = s.head := rfl

@[simp] theorem staging_len (s : Stream) : s.staging.len = s.len := rfl

theorem staging_bufAt (s : Stream) (i : Nat) : s.staging.bufAt i = s.bufAt i := by
  funext j
  exact congrArg s.buf (show ((s.head : Int) + i + j).toNat = s.head + i + j by omega)

theorem staging_bufAt_zero (s : Stream) : s.staging.bufAt 0 = s.bufAt 0 := s.staging_bufAt 0

theorem staging_pending (s : Stream) : s.staging.pending = s.pending := by
  rw [Staging.pending, staging_bufAt_zero]
  rfl

theorem staging_advance {s : Stream} {k : Nat} (hk : k ≤ s.len) :
    s.staging.advance k = (s.advance k).staging := by
  simp only [Staging.advance, Stream.advance, staging, Nat.cast_add, Nat.cast_sub hk]

/-- A prefix of the unprocessed bytes. -/
theorem bytesAt_pending {s : Stream} {k : Nat} (hk : k ≤ s.len) :
    bytesAt (s.bufAt 0) k = s.pending.take k := by
  rw [pending, bytesAt, bytesAt, ← List.map_take, List.take_range, Nat.min_eq_left hk]

/-! ## What a run does, and the model beside it -/

/-- The stream goes where the model goes, with its calls; every event on
the way is safe; and what is taken out and what is left make up what was
there and what came in. -/
structure Moves (s : Stream) (data : List UInt8) (t : Staging × List Event)
    (r : Stream × List Callback) : Prop where
  state : t.1 = r.1.staging
  calls : t.2.filterMap Event.call = r.2
  safe : ∀ e ∈ t.2, e.Safe
  taken : t.2.flatMap Event.taken ++ r.1.pending = s.pending ++ data

/-- Events that only look. -/
theorem Moves.look {s s' : Stream} {events : List Event} (hpend : s'.pending = s.pending)
    (h : ∀ e ∈ events, e.Safe ∧ e.taken = [] ∧ e.call = none) :
    Moves s [] (s'.staging, events) (s', []) where
  state := rfl
  calls := List.filterMap_eq_nil_iff.mpr fun e he => (h e he).2.2
  safe := fun e he => (h e he).1
  taken := by
    rw [List.flatMap_eq_nil_iff.mpr fun e he => (h e he).2.1, hpend, List.nil_append,
      List.append_nil]

theorem Moves.trans {s : Stream} {data more : List UInt8} {t t' : Staging × List Event}
    {r r' : Stream × List Callback} (h : Moves s data t r) (h' : Moves r.1 more t' r') :
    Moves s (data ++ more) (Staging.andThen t.2 t') (andThen r.2 r') where
  state := h'.state
  calls := by
    simp only [Staging.andThen, andThen, List.filterMap_append, h.calls, h'.calls]
  safe := by
    intro e he
    rcases List.mem_append.mp he with he | he
    · exact h.safe e he
    · exact h'.safe e he
  taken := by
    simp only [Staging.andThen, andThen, List.flatMap_append, List.append_assoc]
    rw [h'.taken, ← List.append_assoc, h.taken, List.append_assoc]

theorem Moves.trans_nil {s : Stream} {data : List UInt8} {t t' : Staging × List Event}
    {r r' : Stream × List Callback} (h : Moves s data t r) (h' : Moves r.1 [] t' r') :
    Moves s data (Staging.andThen t.2 t') (andThen r.2 r') := by
  have hall := h.trans h'
  rwa [List.append_nil] at hall

/-- A run adds no bytes of its own. -/
theorem Moves.len_le {s : Stream} {data : List UInt8} {t : Staging × List Event}
    {r : Stream × List Callback} (h : Moves s data t r) : r.1.len ≤ s.len + data.length := by
  have hlen := congrArg List.length h.taken
  rw [List.length_append, List.length_append, pending_length, pending_length] at hlen
  omega

/-! ## The operations -/

/-- The invariant of the model is what an assignment must leave. -/
theorem Wf.cursor {s : Stream} (h : s.Wf) : (Event.cursor s.staging).Safe := by
  have hin := h.inside
  refine ⟨Int.natCast_nonneg _, Int.natCast_nonneg _, ?_, congrArg Nat.cast h.cap_eq⟩
  simp only [staging_head, staging_len, staging_cap]
  omega

/-- Bytes dropped from the front. -/
theorem Moves.skip {s s' : Stream} {k : Nat} (hs : s.state = .scan) (hk : k ≤ s.len)
    (hpend : s'.pending = s.pending.drop k) :
    Moves s [] (s'.staging, [s.staging.skip k]) (s', []) where
  state := rfl
  calls := rfl
  safe := by
    intro e he
    rw [List.mem_singleton.mp he]
    exact hs
  taken := by
    have hbytes : bytesAt (s.staging.bufAt 0) (k : Int).toNat = s.pending.take k := by
      rw [staging_bufAt_zero, Int.toNat_natCast, bytesAt_pending hk]
    simp only [Staging.skip, List.flatMap_cons, Event.taken, List.flatMap_nil, hbytes, hpend,
      List.append_nil, List.take_append_drop]

theorem staging_keep {s : Stream} {k : Nat} {n : Int} (hk : k ≤ s.len) (hn : n = s.len - k) :
    s.staging.keep k n = ((s.keepFrom k).staging,
      [.reads s.staging k n, .writes s.staging 0 n, .cursor (s.keepFrom k).staging]) := by
  subst hn
  have hoff : ((s.head : Int) + k).toNat = s.head + k := by omega
  have hleft : ((s.len : Int) - k).toNat = s.len - k := by omega
  have hstate : (s.staging.keep k (s.len - k)).1 = (s.keepFrom k).staging := by
    simp only [Staging.keep, keepFrom, staging, hoff, hleft, Nat.cast_sub hk, Nat.cast_zero]
  rw [← hstate]
  rfl

/-- Moved to the front. -/
theorem Wf.moves_keep {s : Stream} (h : s.Wf) {k : Nat} {n : Int} (hk : k ≤ s.len)
    (hn : n = s.len - k) (s₀ : Stream) (hpend : (s.keepFrom k).pending = s₀.pending) :
    Moves s₀ [] (s.staging.keep k n) (s.keepFrom k, []) := by
  have hin := h.inside
  rw [staging_keep hk hn]
  refine Moves.look hpend ?_
  intro e he
  simp only [List.mem_cons, List.not_mem_nil, or_false] at he
  rcases he with rfl | rfl | rfl
  · refine ⟨⟨Int.natCast_nonneg _, ?_, ?_⟩, rfl, rfl⟩
    · omega
    · simp only [staging_len]
      omega
  · refine ⟨⟨Int.le_refl 0, ?_, ?_⟩, rfl, rfl⟩
    · omega
    · simp only [staging_cap]
      omega
  · exact ⟨(h.keepFrom k).cursor, rfl, rfl⟩

/-- The three exits of the scan that keep a tail. -/
theorem Wf.moves_tail {s : Stream} (h : s.Wf) (hs : s.state = .scan) {k : Nat} {n : Int}
    (hk : k ≤ s.len) (hn : n = s.len - k) :
    Moves s [] ((s.staging.keep k n).1, s.staging.skip k :: (s.staging.keep k n).2)
      (s.keepFrom k, []) :=
  (Moves.skip hs hk (pending_keepFrom s k)).trans (h.moves_keep hk hn _ rfl)

/-- Skipped over. -/
theorem Wf.moves_advance {s : Stream} (h : s.Wf) (hs : s.state = .scan) {k : Nat}
    (hk : k ≤ s.len) :
    Moves s [] ((s.advance k).staging, [s.staging.skip k, .cursor (s.advance k).staging])
      (s.advance k, []) := by
  refine (Moves.skip hs hk (pending_advance s k)).trans (Moves.look rfl fun e he => ?_)
  rw [List.mem_singleton.mp he]
  exact ⟨(h.advance hk).cursor, rfl, rfl⟩

theorem Wf.moves_compact {s : Stream} (h : s.Wf) :
    Moves s [] s.staging.compact (s.compact, []) := by
  by_cases hhead : s.head > 0
  · have hpos : s.staging.head > 0 := by
      simp only [staging_head]
      omega
    have hcompact : s.compact = s.keepFrom 0 := if_pos hhead
    rw [Staging.compact, if_pos hpos, hcompact]
    exact h.moves_keep (Nat.zero_le _) (Int.sub_zero _).symm s (keepFrom_zero_pending s)
  · have hzero : ¬ s.staging.head > 0 := by
      simp only [staging_head]
      omega
    rw [Staging.compact, if_neg hzero, compact, if_neg hhead]
    exact Moves.look rfl (fun e he => by cases he)

/-- The sequence check only ever reports a resynchronization. -/
theorem mem_trackSeq {c : Ctl} {seq : UInt8} {call : Callback}
    (h : call ∈ (c.trackSeq seq).2) : call = .rsync := by
  simp only [Ctl.trackSeq] at h
  split at h
  · exact List.mem_singleton.mp h
  · cases h

/-- What `accept_block` leaves and does. -/
theorem staging_acceptBlock {s : Stream} {n : Nat} (hn : ackSize + 4 * n ≤ s.len) :
    s.staging.acceptBlock n = ((s.acceptBlock n).1.staging,
      .reads s.staging 0 ackSize ::
        (s.toCtl.trackSeq (blkSeq (s.bufAt 0))).2.map .called ++
          [.reads s.staging ackSize (4 * n),
            .accepted (s.pending.take (ackSize + 4 * n))
              (deliver (bytesAt ((s.bufAt 0).add ackSize) (4 * n)) n),
            .cursor (s.acceptBlock n).1.staging]) := by
  have hstate : (s.staging.acceptBlock n).1 = (s.acceptBlock n).1.staging := by
    simp only [Staging.acceptBlock, acceptBlock, staging_bufAt_zero, staging_advance hn,
      staging_toCtl]
    rfl
  rw [← hstate, ← bytesAt_pending hn, ← staging_bufAt_zero]
  rfl

/-- The calls of the sequence check, and no bytes. -/
theorem calls_called (calls : List Callback) :
    (calls.map Event.called).filterMap Event.call = calls := by
  rw [List.filterMap_map]
  exact List.filterMap_some

theorem taken_called (calls : List Callback) :
    (calls.map Event.called).flatMap Event.taken = [] := by
  rw [List.flatMap_map]
  exact List.flatMap_eq_nil_iff.mpr fun _ _ => rfl

/-- A header and the payload it announces. -/
theorem accepted_safe {s : Stream} {n : Nat} (hv : headerValid (s.bufAt 0) = some n)
    (hn : ackSize + 4 * n ≤ s.len) :
    (Event.accepted (s.pending.take (ackSize + 4 * n))
      (deliver (bytesAt ((s.bufAt 0).add ackSize) (4 * n)) n)).Safe := by
  have hlen : (s.pending.take (ackSize + 4 * n)).length = ackSize + 4 * n := by
    rw [List.length_take, pending_length]
    omega
  have hhdr : headerValid (ptrAt (s.pending.take (ackSize + 4 * n)) 0) =
      headerValid (ptrAt s.pending 0) := by
    refine headerValid_congr fun i hi => ?_
    rw [← ptrAt_append (s.pending.drop (ackSize + 4 * n)) (by omega), List.take_append_drop]
  refine ⟨n, ?_, hlen, ?_⟩
  · rw [hhdr, headerValid_pending s (by omega), hv]
  · rw [List.drop_take, Nat.add_sub_cancel_left, s.payload_pending hn]

/-- A block taken out. -/
theorem Wf.moves_acceptBlock {s : Stream} (h : s.Wf) {n : Nat}
    (hv : headerValid (s.bufAt 0) = some n) (hn : ackSize + 4 * n ≤ s.len) :
    Moves s [] (s.staging.acceptBlock n) (s.acceptBlock n) := by
  rw [staging_acceptBlock hn]
  refine ⟨rfl, ?_, ?_, ?_⟩
  · rw [List.cons_append, List.filterMap_cons, List.filterMap_append, calls_called]
    rfl
  · intro e he
    simp only [List.cons_append, List.mem_cons, List.mem_append, List.mem_map, List.not_mem_nil,
      or_false] at he
    rcases he with rfl | ⟨call, hcall, rfl⟩ | rfl | rfl | rfl
    · exact ⟨Int.le_refl 0, Int.natCast_nonneg _, by simp only [staging_len]; omega⟩
    · exact mem_trackSeq hcall
    · exact ⟨Int.natCast_nonneg _, by omega, by simp only [staging_len]; omega⟩
    · exact accepted_safe hv hn
    · exact (h.acceptBlock hn).cursor
  · have hrest : (s.acceptBlock n).1.pending = s.pending.drop (ackSize + 4 * n) :=
      pending_advance s _
    rw [List.cons_append, List.flatMap_cons, List.flatMap_append, taken_called, hrest]
    simp only [List.flatMap_cons, Event.taken, List.flatMap_nil, List.append_nil, List.nil_append,
      List.take_append_drop]

/-! ## The scan -/

/-- The scan loop looks at four bytes of the buffer a turn, and stops at
the first magic. -/
theorem scanFrom_eq {s : Stream} {turns i : Nat} (h : i + turns + 3 ≤ s.len ∨ turns = 0) :
    (s.staging.scanFrom turns i).1 =
        ((List.range' i turns).find? fun j => magicAt (s.bufAt j)).map Nat.cast ∧
      ∀ e ∈ (s.staging.scanFrom turns i).2, e.Safe ∧ e.taken = [] ∧ e.call = none := by
  induction turns generalizing i with
  | zero => exact ⟨rfl, fun e he => by cases he⟩
  | succ turns ih =>
      have hlook : (Event.reads s.staging i 4).Safe := by
        refine ⟨Int.natCast_nonneg _, by decide, ?_⟩
        simp only [staging_len]
        omega
      rw [Staging.scanFrom, staging_bufAt, List.range'_succ]
      by_cases hm : magicAt (s.bufAt i) = true
      · rw [if_pos hm, List.find?_cons_of_pos (p := fun j => magicAt (s.bufAt j)) hm]
        refine ⟨rfl, fun e he => ?_⟩
        rw [List.mem_singleton.mp he]
        exact ⟨hlook, rfl, rfl⟩
      · obtain ⟨hfound, hlooks⟩ := ih (i := i + 1) (by omega)
        rw [Nat.cast_add, Nat.cast_one] at hfound hlooks
        rw [if_neg hm, List.find?_cons_of_neg (p := fun j => magicAt (s.bufAt j)) hm]
        refine ⟨hfound, fun e he => ?_⟩
        rcases List.mem_cons.mp he with rfl | he
        · exact ⟨hlook, rfl, rfl⟩
        · exact hlooks e he

theorem findMagic_eq (s : Stream) :
    s.staging.findMagic.1 = s.findMagic.map Nat.cast ∧
      ∀ e ∈ s.staging.findMagic.2, e.Safe ∧ e.taken = [] ∧ e.call = none := by
  have hturns : (s.staging.len - 4 + 1).toNat = s.len - 3 := by
    simp only [staging_len]
    omega
  rw [Staging.findMagic, hturns, findMagic, List.range_eq_range']
  exact scanFrom_eq (i := 0) (by omega)

/-! ## `process_available` -/

/-- What a turn of the loop uses up. -/
def loopSize (s : Stream) : Nat := 2 * s.len + (if s.state = .block then 1 else 0)

/-- The loop ends as the model does. -/
def Ends (s : Stream) (r : Stream × List Callback) : Prop :=
  ∃ t, Moves s [] t r ∧ ∀ turns, loopSize s < turns → s.staging.processLoop turns = some t

theorem Ends.of_return {s : Stream} {t : Staging × List Event} {r : Stream × List Callback}
    (hturn : s.staging.turn = (false, t)) (hm : Moves s [] t r) : Ends s r := by
  refine ⟨t, hm, fun turns hturns => ?_⟩
  obtain ⟨more, rfl⟩ : ∃ more, turns = more + 1 := ⟨turns - 1, by omega⟩
  rw [Staging.processLoop, hturn]
  rfl

theorem Ends.of_continue {s s₁ : Stream} {t : Staging × List Event} {calls : List Callback}
    {r : Stream × List Callback} (hturn : s.staging.turn = (true, t))
    (hm : Moves s [] t (s₁, calls)) (hlt : loopSize s₁ < loopSize s) (h : Ends s₁ r) :
    Ends s (andThen calls r) := by
  obtain ⟨t₁, hm₁, hloop⟩ := h
  refine ⟨Staging.andThen t.2 t₁, hm.trans hm₁, fun turns hturns => ?_⟩
  obtain ⟨more, rfl⟩ : ∃ more, turns = more + 1 := ⟨turns - 1, by omega⟩
  rw [Staging.processLoop, hturn]
  dsimp only
  rw [if_pos rfl, hm.state, hloop more (by omega)]
  rfl

/-- Looking at what the buffer holds. -/
theorem Moves.reads {s : Stream} {i n : Nat} (h : i + n ≤ s.len) :
    Moves s [] (s.staging, [.reads s.staging i n]) (s, []) := by
  refine Moves.look rfl fun e he => ?_
  rw [List.mem_singleton.mp he]
  refine ⟨⟨Int.natCast_nonneg _, Int.natCast_nonneg _, ?_⟩, rfl, rfl⟩
  simp only [staging_len]
  omega

theorem Moves.resync (s : Stream) :
    Moves s [] (Stream.staging { s with toCtl := s.toCtl.resync }, [.called .rsync])
      ({ s with toCtl := s.toCtl.resync }, [.rsync]) where
  state := rfl
  calls := rfl
  safe := by
    intro e he
    rw [List.mem_singleton.mp he]
    rfl
  taken := (List.append_nil _).symm

theorem loopSize_acceptBlock {s : Stream} {n : Nat} (hn : ackSize + 4 * n ≤ s.len) :
    loopSize (s.acceptBlock n).1 < 2 * s.len := by
  have hsize : loopSize (s.acceptBlock n).1 = 2 * (s.len - (ackSize + 4 * n)) + 1 := rfl
  have hack : ackSize = 16 := rfl
  omega

theorem loopSize_advance {s : Stream} {k : Nat} (hpos : 0 < k) (hk : k ≤ s.len) :
    loopSize (s.advance k) < loopSize s := by
  have hsize : loopSize (s.advance k) =
      2 * (s.len - k) + (if s.state = .block then 1 else 0) := rfl
  rw [hsize, loopSize]
  omega

theorem loopSize_resync {s : Stream} (hs : s.state = .block) :
    loopSize { s with toCtl := s.toCtl.resync } < loopSize s := by
  have hsize : loopSize { s with toCtl := s.toCtl.resync } = 2 * s.len := rfl
  rw [hsize, loopSize, if_pos hs]
  omega

theorem turn_block {s : Stream} (hlen : ¬ s.len < ackSize) (hs : s.state = .block) :
    s.staging.turn = s.staging.turnBlock := by
  have hstate : s.staging.state = .block := hs
  rw [Staging.turn, if_neg (by simp only [staging_len]; omega)]
  simp only [hstate]

theorem turn_scan {s : Stream} (hlen : ¬ s.len < ackSize) (hs : s.state = .scan) :
    s.staging.turn = s.staging.turnScan := by
  have hstate : s.staging.state = .scan := hs
  rw [Staging.turn, if_neg (by simp only [staging_len]; omega)]
  simp only [hstate]

/-- **The loop follows the model**, by the model's own recursion: one
turn a case, and the moves of the turn in front of those that follow. -/
theorem processLoop_moves (s : Stream) (hwf : s.Wf) : Ends s s.processAvailable := by
  fun_induction processAvailable s with
  | case1 s hlen =>
      refine Ends.of_return (t := (s.staging, [])) ?_ (Moves.look rfl fun e he => by cases he)
      rw [Staging.turn, if_pos (by simp only [staging_len]; omega)]
  | case2 s hlen hs n hv hfull hfit =>
      refine Ends.of_return ?_ (Moves.reads (i := 0) (n := ackSize) (by omega))
      simp only [turn_block hlen hs, Staging.turnBlock, staging_bufAt_zero, hv]
      rw [if_pos (by rw [staging_len]; omega), if_pos (by rw [staging_cap]; omega)]
      rfl
  | case3 s hlen hs n hv hfull hfit ih =>
      have hlook := Moves.reads (s := s) (i := 0) (n := ackSize) (by omega)
      refine Ends.of_continue ?_ (hlook.trans (Moves.resync s)) (loopSize_resync hs)
        (ih ⟨hwf.cap_eq, hwf.inside⟩)
      simp only [turn_block hlen hs, Staging.turnBlock, staging_bufAt_zero, hv]
      rw [if_pos (by rw [staging_len]; omega), if_neg (by rw [staging_cap]; omega)]
      rfl
  | case4 s hlen hs n hv hfull r ih =>
      have hn : ackSize + 4 * n ≤ s.len := by omega
      have hlook := Moves.reads (s := s) (i := 0) (n := ackSize) (by omega)
      refine Ends.of_continue ?_ (hlook.trans (hwf.moves_acceptBlock hv hn)) ?_
        (ih (hwf.acceptBlock hn))
      · simp only [turn_block hlen hs, Staging.turnBlock, staging_bufAt_zero, hv]
        rw [if_neg (by rw [staging_len]; omega)]
        rfl
      · exact Nat.lt_of_lt_of_le (loopSize_acceptBlock hn) (Nat.le_add_right _ _)
  | case5 s hlen hs hv ih =>
      have hlook := Moves.reads (s := s) (i := 0) (n := ackSize) (by omega)
      refine Ends.of_continue ?_ (hlook.trans (Moves.resync s)) (loopSize_resync hs)
        (ih ⟨hwf.cap_eq, hwf.inside⟩)
      simp only [turn_block hlen hs, Staging.turnBlock, staging_bufAt_zero, hv]
      rfl
  | case6 s hlen hs hnone keep hfit =>
      obtain ⟨hfind, hlooks⟩ := s.findMagic_eq
      rw [hnone] at hfind
      have htail : min s.staging.len scanKeepTail = keep := by
        rw [staging_len]
        omega
      refine Ends.of_return ?_ ((Moves.look (s := s) rfl hlooks).trans
        (hwf.moves_tail hs (k := s.len - keep) (n := keep) (by omega) (by omega)))
      simp only [turn_scan hlen hs, Staging.turnScan, hfind, Option.map_none, htail]
      rw [if_pos (by rw [staging_head, staging_len, staging_cap]; omega), staging_len,
        ← Nat.cast_sub (by omega)]
      rfl
  | case7 s hlen hs hnone keep hfit =>
      obtain ⟨hfind, hlooks⟩ := s.findMagic_eq
      rw [hnone] at hfind
      have htail : min s.staging.len scanKeepTail = keep := by
        rw [staging_len]
        omega
      refine Ends.of_return ?_ (Moves.look (s := s) rfl hlooks)
      simp only [turn_scan hlen hs, Staging.turnScan, hfind, Option.map_none, htail]
      rw [if_neg (by rw [staging_head, staging_len, staging_cap]; omega)]
  | case8 s hlen hs found hfound hshort =>
      obtain ⟨hfind, hlooks⟩ := s.findMagic_eq
      obtain ⟨h4, -, -⟩ := findMagic_some hfound
      rw [hfound] at hfind
      refine Ends.of_return ?_ ((Moves.look (s := s) rfl hlooks).trans
        (hwf.moves_tail hs (k := found) (by omega) rfl))
      simp only [turn_scan hlen hs, Staging.turnScan, hfind, Option.map_some]
      rw [if_pos (by rw [staging_len]; omega)]
      rfl
  | case9 s hlen hs found hfound hshort hv ih =>
      obtain ⟨hfind, hlooks⟩ := s.findMagic_eq
      obtain ⟨h4, -, -⟩ := findMagic_some hfound
      rw [hfound] at hfind
      have hlook := Moves.reads (s := s) (i := found) (n := ackSize) (by omega)
      have hskip := hwf.moves_advance hs (k := found + 1) (by omega)
      refine Ends.of_continue ?_
        ((Moves.look (s := s) rfl hlooks).trans (hlook.trans hskip))
        (loopSize_advance (k := found + 1) (by omega) (by omega)) (ih (hwf.advance (by omega)))
      simp only [turn_scan hlen hs, Staging.turnScan, hfind, Option.map_some, staging_bufAt, hv]
      rw [if_neg (by rw [staging_len]; omega), ← Nat.cast_succ, staging_advance (by omega)]
      rfl
  | case10 s hlen hs found hfound hshort n hv hfull =>
      obtain ⟨hfind, hlooks⟩ := s.findMagic_eq
      obtain ⟨h4, -, -⟩ := findMagic_some hfound
      rw [hfound] at hfind
      have hlook := Moves.reads (s := s) (i := found) (n := ackSize) (by omega)
      refine Ends.of_return ?_ ((Moves.look (s := s) rfl hlooks).trans
        (hlook.trans (hwf.moves_tail hs (k := found) (by omega) rfl)))
      simp only [turn_scan hlen hs, Staging.turnScan, hfind, Option.map_some, staging_bufAt, hv]
      rw [if_neg (by rw [staging_len]; omega), if_pos (by rw [staging_len]; omega)]
      rfl
  | case11 s hlen hs found hfound hshort n hv hfull r ih =>
      obtain ⟨hfind, hlooks⟩ := s.findMagic_eq
      obtain ⟨h4, -, -⟩ := findMagic_some hfound
      rw [hfound] at hfind
      have hwf' : (s.advance found).Wf := hwf.advance (by omega)
      have hn : ackSize + 4 * n ≤ (s.advance found).len := by
        simp only [advance]
        omega
      have hlook := Moves.reads (s := s) (i := found) (n := ackSize) (by omega)
      have hskip := hwf.moves_advance hs (k := found) (by omega)
      have hblock := hwf'.moves_acceptBlock (by rw [bufAt_advance]; exact hv) hn
      refine Ends.of_continue ?_
        ((Moves.look (s := s) rfl hlooks).trans (hlook.trans (hskip.trans hblock))) ?_
        (ih (hwf'.acceptBlock hn))
      · simp only [turn_scan hlen hs, Staging.turnScan, hfind, Option.map_some, staging_bufAt, hv]
        rw [if_neg (by rw [staging_len]; omega), if_neg (by rw [staging_len]; omega),
          staging_advance (by omega)]
        rfl
      · refine Nat.lt_of_lt_of_le (loopSize_acceptBlock hn) ?_
        have hadv : (s.advance found).len = s.len - found := rfl
        rw [hadv, loopSize]
        omega

/-- A compaction behind a run. -/
theorem Moves.compact {s : Stream} {data : List UInt8} {t : Staging × List Event}
    {r : Stream × List Callback} (h : Moves s data t r) (hwf : r.1.Wf) :
    Moves s data (Staging.andThen t.2 r.1.staging.compact) (r.1.compact, r.2) := by
  have hall := h.trans_nil hwf.moves_compact
  rwa [andThen, List.append_nil] at hall

/-- **`process_available` returns**, and leaves less than one maximum
block. -/
theorem Wf.processAvailable_moves {s : Stream} (h : s.Wf) :
    ∃ t, s.staging.processAvailable = some t ∧ Moves s [] t s.processAvailable := by
  obtain ⟨t, hm, hloop⟩ := processLoop_moves s h
  have hlen : (Event.returned s.processAvailable.1.staging.len).Safe := by
    have hlt := (processAvailable_spec s h).len_lt
    simp only [Event.Safe, staging_len]
    omega
  have hreturned : Moves s.processAvailable.1 []
      (s.processAvailable.1.staging, [.returned s.processAvailable.1.staging.len])
      (s.processAvailable.1, []) := by
    refine Moves.look rfl fun e he => ?_
    rw [List.mem_singleton.mp he]
    exact ⟨hlen, rfl, rfl⟩
  have hturns : loopSize s < 2 * s.staging.len.toNat + 2 := by
    rw [loopSize, staging_len, Int.toNat_natCast]
    split <;> omega
  have hall := hm.trans hreturned
  refine ⟨_, ?_, by simpa only [andThen, List.append_nil] using hall⟩
  rw [Staging.processAvailable, hloop _ hturns, Option.map_some, hm.state]
  rfl

/-! ## `stream_feed` -/

/-- Bytes copied behind those that are there. -/
theorem Wf.moves_append {s : Stream} (h : s.Wf) {data : List UInt8}
    (hfit : s.head + (s.len + data.length) ≤ s.cap) :
    Moves s data (s.staging.append data) (s.append data, []) := by
  have hstate : (s.staging.append data).1 = (s.append data).staging := by
    have hoff : ((s.head : Int) + s.len).toNat = s.head + s.len := by omega
    simp only [Staging.append, Stream.append, staging, hoff, Nat.cast_add]
  refine ⟨hstate, rfl, ?_, pending_append s data⟩
  intro e he
  simp only [Staging.append, List.mem_cons, List.not_mem_nil, or_false] at he
  rcases he with rfl | rfl
  · refine ⟨?_, Int.natCast_nonneg _, ?_⟩
    · rw [staging_head, staging_len]
      omega
    · rw [staging_head, staging_len, staging_cap]
      omega
  · have hcursor := (h.append hfit).cursor
    rwa [← hstate] at hcursor

/-- The lazy compaction. -/
theorem Wf.moves_lazy {s : Stream} (h : s.Wf) (size : Nat) :
    Moves s []
      (if s.staging.head ≠ 0 ∧ s.staging.len + size > s.staging.cap - s.staging.head then
        s.staging.keep 0 s.staging.len else (s.staging, []))
      (if s.head ≠ 0 ∧ s.len + size > s.cap - s.head then
        { s with buf := memmove s.buf 0 s.head s.len, head := 0 } else s, []) := by
  have hin := h.inside
  by_cases hfull : s.head ≠ 0 ∧ s.len + size > s.cap - s.head
  · rw [if_pos hfull, if_pos (by rw [staging_head, staging_len, staging_cap]; omega)]
    exact h.moves_keep (Nat.zero_le _) (Int.sub_zero _).symm s (keepFrom_zero_pending s)
  · rw [if_neg hfull, if_neg (by rw [staging_head, staging_len, staging_cap]; omega)]
    exact Moves.look rfl fun e he => by cases he

/-- **`stream_feed` ends and is safe.** The induction is on the number of
passes, beside that of the model; `len + size` only falls. -/
theorem feedLoop_moves (passes : Nat) {s : Stream} (data : List UInt8) (h : Ready s)
    (hsum : (s.len : Int) + data.length ≤ intMax) (hp : data.length < passes) :
    ∃ t r, s.staging.feedLoop passes data = some t ∧ feedLoop passes s data = some r ∧
      Moves s data t r ∧ Ready r.1 := by
  induction passes generalizing s data with
  | zero => omega
  | succ passes ih =>
      have hcursor : Moves s [] (s.staging, [.cursor s.staging]) (s, []) := by
        refine Moves.look rfl fun e he => ?_
        rw [List.mem_singleton.mp he]
        exact ⟨h.wf.cursor, rfl, rfl⟩
      have hadd : Moves s [] (s.staging, [.sum (s.staging.len + data.length)]) (s, []) := by
        refine Moves.look rfl fun e he => ?_
        rw [List.mem_singleton.mp he]
        exact ⟨hsum, rfl, rfl⟩
      rw [Staging.feedLoop, feedLoop]
      by_cases hempty : data.length = 0
      · have hnil : data = [] := List.length_eq_zero_iff.mp hempty
        subst hnil
        obtain ⟨t, hrun, hm⟩ := h.wf.processAvailable_moves
        refine ⟨_, _, by rw [hrun]; rfl, rfl, hcursor.trans hm, (processAvailable_spec s h.wf).ready⟩
      · have hlazy := h.wf.moves_lazy data.length
        rw [if_neg hempty, if_neg (by omega)]
        extract_lets moved start whole front room part full events s₁ s₂ part' s₃ r'
        replace hlazy : Moves s [] moved (s₁, []) := hlazy
        obtain ⟨h₁, -, -⟩ := h.lazy s₁ rfl
        have hin := h₁.wf.inside
        have hstart : Moves s [] (moved.1, start) (s₁, []) := (hcursor.trans hadd).trans hlazy
        have hmoved : moved.1 = s₁.staging := hlazy.state
        by_cases hfits : s₁.len + data.length ≤ s₁.cap - s₁.head
        · have hwhole : whole = s₁.staging.append data := by simp only [whole, hmoved]
          have hfit : s₁.head + (s₁.len + data.length) ≤ s₁.cap := by omega
          have happ := h₁.wf.moves_append hfit
          rw [← hwhole] at happ
          have hwf := h₁.wf.append hfit
          obtain ⟨t, hrun, hm⟩ := hwf.processAvailable_moves
          refine ⟨_, _, ?_, if_pos hfits, (hstart.trans happ).trans_nil hm, (processAvailable_spec _ hwf).ready⟩
          rw [hmoved, if_pos (by rw [staging_len, staging_cap, staging_head]; omega), happ.state,
            hrun]
          rfl
        · -- the buffer is full
          have h₂ : Ready s₂ := h₁.compact
          have hhead : s₂.head = 0 := compact_head s₁
          have hlen := h₂.len_lt
          have hcap := h₂.wf.cap_eq
          have hbig : blkMaxSize < streamBufSize := by decide
          have hfront : front = s₁.staging.compact := by simp only [front, hmoved]
          have hcompact := h₁.wf.moves_compact
          rw [← hfront] at hcompact
          have hfst : front.1 = s₂.staging := hcompact.state
          have hpart : part = part' := by
            simp only [part, room, hfst, staging_cap, staging_len, part']
            omega
          have hpos : 0 < part' := by
            simp only [part']
            omega
          have htake : (data.take part').length = part' := by
            simp only [List.length_take, part']
            omega
          have hfilled : Moves s₂ [] (front.1, [.filled part]) (s₂, []) := by
            rw [hfst]
            refine Moves.look rfl fun e he => ?_
            rw [List.mem_singleton.mp he]
            exact ⟨by simp only [Event.Safe]; omega, rfl, rfl⟩
          have hfit : s₂.head + (s₂.len + (data.take part').length) ≤ s₂.cap := by
            rw [htake, hhead]
            simp only [part']
            omega
          have hwf := h₂.wf.append hfit
          have hfull : full = s₂.staging.append (data.take part') := by
            simp only [full, hfst, hpart, Int.toNat_natCast]
          have hcopied := h₂.wf.moves_append hfit
          rw [← hfull] at hcopied
          obtain ⟨t, hrun, hm⟩ := hwf.processAvailable_moves
          have hr := (processAvailable_spec _ hwf).ready
          have hpass : Moves s (data.take part') (Staging.andThen events t) s₃.processAvailable :=
            ((hstart.trans hcompact).trans (hfilled.trans hcopied)).trans_nil hm
          rw [if_neg hfits, if_neg (by rw [hmoved, staging_len, staging_cap, staging_head]; omega),
            hcopied.state, hrun]
          by_cases hrest : (data.drop part').length = 0
          · have hall : data.take part' = data := by
              rw [List.length_drop] at hrest
              exact List.take_of_length_le (by omega)
            rw [if_pos hrest, if_pos (by rw [List.length_drop] at hrest; omega)]
            rw [hall] at hpass
            exact ⟨_, _, rfl, rfl, hpass, hr⟩
          · rw [if_neg hrest, if_neg (by rw [List.length_drop] at hrest; omega)]
            have hback : Moves s (data.take part')
                (Staging.andThen (events ++ t.2) r'.1.staging.compact) (r'.1.compact, r'.2) :=
              hpass.compact hr.wf
            have hle : r'.1.compact.len ≤ s.len + (data.take part').length := hback.len_le
            have hrest' : (data.drop part').length = data.length - part' := List.length_drop
            obtain ⟨t', r, hrun', hloop, hm', hready⟩ := ih (s := r'.1.compact) (data.drop part')
              hr.compact (by omega) (by omega)
            have hall := hback.trans hm'
            rw [List.take_append_drop] at hall
            refine ⟨_, _, ?_, ?_, hall, hready⟩
            · have hrest : (r'.1.staging.compact).1 = r'.1.compact.staging := hback.state
              rw [Option.bind_some, hm.state, hpart, Int.toNat_natCast]
              dsimp only
              rw [hrest, hrun']
              rfl
            · rw [hloop]
              rfl

end Stream

/-! ## Every reachable state -/

namespace Staging

/-- A stream between two calls of `stream_feed`, none of which had a
`len + size` beyond an `int`. -/
inductive Reachable : Staging → Prop where
  | new : Reachable new
  | feed {s s' : Staging} {data : List UInt8} {events : List Event} (h : Reachable s)
      (hsum : s.len + data.length ≤ intMax) (hrun : s.feed data = some (s', events)) : Reachable s'

/-- One call, beside the model. -/
theorem feed_moves {m : Stream} (h : m.Ready) (data : List UInt8)
    (hsum : (m.len : Int) + data.length ≤ intMax) :
    ∃ t r, m.staging.feed data = some t ∧ m.feed data = some r ∧ Stream.Moves m data t r ∧
      r.1.Ready :=
  Stream.feedLoop_moves (data.length + 1) data h hsum (Nat.lt_succ_self _)

/-- The model has every reachable stream. -/
theorem Reachable.ready {s : Staging} (h : Reachable s) :
    ∃ m : Stream, m.Ready ∧ s = m.staging := by
  induction h with
  | new => exact ⟨Stream.new, Stream.ready_new, rfl⟩
  | @feed s s' data events h hsum hrun ih =>
      obtain ⟨m, hready, rfl⟩ := ih
      obtain ⟨t, r, hfeed, -, hm, hready'⟩ := feed_moves hready data hsum
      rw [hfeed] at hrun
      cases hrun
      exact ⟨r.1, hready', hm.state⟩

/-- **The staging buffer is safe and `stream_feed` makes progress.** On
every reachable stream and every input whose `len + size` is an `int` the
call returns. The fields stay in range, what is read lies inside the
unprocessed bytes, `process_available` leaves less than one maximum block
and every pass of the buffer-full branch copies a byte; and the blocks
delivered, the bytes skipped while scanning and the bytes still there are
together, in this order, the old bytes and the input. -/
theorem feed_safe (s : Staging) (data : List UInt8) (h : Reachable s)
    (hsum : s.len + data.length ≤ intMax) :
    ∃ s' events, s.feed data = some (s', events) ∧ (∀ e ∈ events, e.Safe) ∧
      (Event.cursor s').Safe ∧ s'.len < blkMaxSize ∧
        events.flatMap Event.taken ++ s'.pending = s.pending ++ data := by
  obtain ⟨m, hready, rfl⟩ := h.ready
  obtain ⟨t, r, hfeed, -, hm, hready'⟩ := feed_moves hready data hsum
  have hlen := hready'.len_lt
  refine ⟨t.1, t.2, hfeed, hm.safe, ?_, ?_, ?_⟩
  · rw [hm.state]
    exact hready'.wf.cursor
  · rw [hm.state, Stream.staging_len]
    omega
  · rw [hm.state, Stream.staging_pending, Stream.staging_pending]
    exact hm.taken

/-! ## More than the buffer holds -/

theorem mem_andThen {e : Event} {events : List Event} (h : e ∈ events)
    {r : Option (Staging × List Event)} {t : Staging × List Event}
    (ht : r.map (andThen events) = some t) : e ∈ t.2 := by
  obtain ⟨t', -, rfl⟩ := Option.map_eq_some_iff.mp ht
  exact List.mem_append_left _ h

/-- An input that does not fit fills the buffer. -/
theorem feed_filled {s : Staging} (hhead : 0 ≤ s.head) {data : List UInt8} (hne : data ≠ [])
    (hbig : s.cap < s.len + data.length) {t : Staging × List Event} (ht : s.feed data = some t) :
    ∃ part, .filled part ∈ t.2 := by
  have hpos : (data.length : Int) > 0 := Int.natCast_pos.mpr (List.length_pos_iff.mpr hne)
  rw [feed, feedLoop, if_neg (not_not.mpr hpos)] at ht
  dsimp only at ht
  generalize hmoved : (if s.head ≠ 0 ∧ s.len + (data.length : Int) > s.cap - s.head then s.keep 0 s.len
    else (s, [])) = moved at ht
  have hkept : 0 ≤ moved.1.head ∧ moved.1.len = s.len ∧ moved.1.cap = s.cap := by
    rw [← hmoved]
    split
    · exact ⟨le_refl 0, rfl, rfl⟩
    · exact ⟨hhead, rfl, rfl⟩
  rw [if_neg (by omega)] at ht
  split at ht
  · exact ⟨_, mem_andThen (List.mem_append_right _ List.mem_cons_self) ht⟩
  · obtain ⟨r, -, ht⟩ := Option.bind_eq_some_iff.mp ht
    exact ⟨_, mem_andThen (List.mem_append_left _ (List.mem_append_left _
      (List.mem_append_right _ List.mem_cons_self))) ht⟩

/-- A mebibyte of zeros. -/
def zeros : List UInt8 := List.replicate streamBufSize 0

theorem zeros_ne_nil : zeros ≠ [] := by
  rw [zeros, ne_eq, List.replicate_eq_nil_iff]
  decide

/-- No header starts in them. -/
theorem zeros_clean (x : List UInt8) :
    ∀ i < zeros.length, headerValid (ptrAt (zeros ++ x) i) = none := by
  intro i hi
  by_contra hsome
  obtain ⟨n, hn⟩ := Option.ne_none_iff_exists'.mp hsome
  have hfirst := BlockLayer.magicAt_first (BlockLayer.magicAt_of_headerValid hn)
  have hzero : ptrAt (zeros ++ x) i 0 = 0 := by
    rw [zeros, List.length_replicate] at hi
    simp [ptrAt, zeros, List.getD_eq_getElem?_getD, List.getElem?_append_left, hi]
  rw [hzero] at hfirst
  cases hfirst

/-- The first bytes of an ACK. -/
def ackStart : List UInt8 := (Stream.ackBlock 0).encode.take 10

/-- The rest of it, as many zeros as the buffer holds, and a block. -/
def overlong : List UInt8 :=
  (Stream.ackBlock 0).encode.drop 10 ++ (zeros ++ Stream.encodeAll [Stream.wordBlock 9 1 2 3 4])

theorem ackStart_held :
    (new.feed ackStart).map (fun r => (r.1.state, r.1.haveSeq, r.1.pending)) =
      some (.scan, false, ackStart) := by decide +kernel

theorem ackStart_overlong : ackStart ++ overlong =
    Stream.encodeAll [Stream.ackBlock 0] ++
      (zeros ++ Stream.encodeAll [Stream.wordBlock 9 1 2 3 4]) := by
  rw [ackStart, overlong, ← List.append_assoc, List.take_append_drop]
  simp

theorem feed_safe_overlong :
    ∃ s events s' events', new.feed ackStart = some (s, events) ∧ s.pending = ackStart ∧
      s.feed overlong = some (s', events') ∧ (∀ e ∈ events', e.Safe) ∧ (Event.cursor s').Safe ∧
        s'.len < blkMaxSize ∧ events'.flatMap Event.taken ++ s'.pending = ackStart ++ overlong ∧
          (∃ part, .filled part ∈ events') ∧
            events'.filterMap Event.call = [.ack, .rsync, .data [1, 2, 3, 4]] := by
  obtain ⟨⟨s, events⟩, hnew, hheld⟩ := Option.map_eq_some_iff.mp ackStart_held
  simp only [Prod.mk.injEq] at hheld
  obtain ⟨hstate, hseq, hpending⟩ := hheld
  have hreach : Reachable s := Reachable.feed Reachable.new (by decide) hnew
  obtain ⟨m, hready, rfl⟩ := hreach.ready
  rw [Stream.staging_pending] at hpending
  have hlen : m.len = 10 := by
    rw [← Stream.pending_length, hpending]
    decide
  have hlong : overlong.length = 1048602 := by
    have hrest : ((Stream.ackBlock 0).encode.drop 10).length = 6 := by decide
    rw [overlong, List.length_append, List.length_append, hrest, zeros, List.length_replicate]
    rfl
  have hsum : m.staging.len + overlong.length ≤ intMax := by
    rw [Stream.staging_len, hlen, hlong]
    decide
  obtain ⟨s', events', hfeed, hsafe, hcursor, hlt, htaken⟩ := feed_safe m.staging overlong hreach hsum
  refine ⟨m.staging, events, s', events', hnew, by rw [Stream.staging_pending, hpending], hfeed,
    hsafe, hcursor, hlt, ?_, ?_, ?_⟩
  · rw [htaken, Stream.staging_pending, hpending]
  · refine feed_filled (Int.natCast_nonneg _) ?_ ?_ hfeed
    · exact List.ne_nil_of_length_pos (by rw [hlong]; omega)
    · rw [Stream.staging_len, Stream.staging_cap, hready.wf.cap_eq, hlen, hlong]
      decide
  · -- the model makes the calls of the machine
    obtain ⟨t, r, hrun, hmodel, hm, -⟩ := feed_moves hready overlong hsum
    rw [hrun] at hfeed
    cases hfeed
    have hwait : BlockLayer.blockMachine.step m.toCtl ackStart = none := by
      have hmagic : magicAt (ptrAt ackStart 0) = true := by decide +kernel
      have hpart : ackStart.length = 10 := by decide
      show BlockLayer.parseStep m.toCtl ackStart = none
      simp [BlockLayer.parseStep, show m.state = .scan from hstate, hmagic, hpart, ackSize]
    have hdrain : BlockLayer.blockMachine.drain (Stream.abs m).1 (Stream.abs m).2 =
        (m.toCtl, ackStart, []) := by
      rw [Stream.abs, hpending]
      exact Lib.Incremental.drain_of_none hwait
    obtain ⟨m', o, hfeed, -, ho, -⟩ := Stream.feed_implements.feed_spec overlong hready hdrain
    rw [hmodel] at hfeed
    cases hfeed
    have hack : [Stream.ackBlock 0] ≠ [] := by simp
    have hword : [Stream.wordBlock 9 1 2 3 4] ≠ [] := by simp
    have hresync := Stream.drain_resync (Stream.afterBlocks_state hack m.toCtl) zeros_ne_nil hword
      (by simp) (zeros_clean _)
    rw [hm.calls, ← ho, ackStart_overlong, Stream.drain_blocks]
    dsimp only
    rw [hresync, Stream.lastNumber, show m.haveSeq = false from hseq]
    rfl

end Staging

end UsbSniffer
