import UsbSniffer.Lib.Queue
import UsbSniffer.Stream.Model
import UsbSniffer.Pcapng.Block

/-!
# The asynchronous pcapng writer

`pcapng.c`: the producer copies blocks into a staging chunk and queues
full or due chunks, `writer_main` takes them off and writes them. What
the producer still has to do is a list of operations, one for each piece
of its code up to the next place where the writer may come between: a
critical section, with the private work next to it. Which thread moves,
whether `LIVE_FLUSH_MS` have passed and how much `fwrite` accepts is
left open.

`file` holds the bytes `fwrite` has accepted. `fflush` and the buffer of
the C library are not modelled, nor is the freeing of memory.
-/

namespace UsbSniffer.Pcapng

open Lib Uhsif

/-- `WQ_SLOTS`. -/
def wqSlots : Nat := 32

/-- `WQ_CHUNK`. -/
def wqChunk : Nat := 256 * 1024

/-- The largest `int`. -/
def intMax : Nat := 2147483647

/-! ## The calls -/

/-- The calls that may come any number of times. -/
inductive Write where
  | epb (ts : UInt64) (data : List UInt8)
  | info (ts : UInt64) (str : List UInt8)
  | flush
  deriving DecidableEq, Repr

inductive Call where
  | begin (linkType : UInt32)
  | write (w : Write)
  | close
  deriving DecidableEq, Repr

/-- The block a call writes. -/
def Write.block : Write → List UInt8
  | .epb ts data => epbBlock ts data
  | .info ts str => infoBlock ts str
  | .flush => []

/-- The block can be assembled in `p->block`. -/
def Write.Fits (w : Write) : Prop := w.block.length ≤ blockBufSize

/-! ## The state -/

/-- An entry of `q` and of `q_len`; a buffer is known by its number. -/
structure Item where
  buf : Nat
  len : Nat
  deriving DecidableEq, Repr

/-- The conditions the producer waits for. -/
inductive Cond where
  | nonfull
  | freecv
  deriving DecidableEq, Repr

/-- What the producer has to do. `copy` is the loop of `sink_write` and
`liveFlush` its end, `drain` the wait of `pcapng_flush`. -/
inductive Op where
  | sinkWrite (d : List UInt8)
  | copy (d : List UInt8)
  | liveFlush
  | chunkFlush
  | drain
  | stop
  | join
  deriving DecidableEq, Repr

/-- Where `writer_main` is. `off` is what it has written of the chunk. -/
inductive Writer where
  | acquire
  | asleep
  | write (it : Item) (off : Nat)
  | release (buf : Nat)
  | exited
  deriving DecidableEq, Repr

/-- `struct pcapng` and its two threads. `refill` is set between the two
critical sections of `chunk_flush`, while `chunk` still names the buffer
that is already queued. -/
structure State where
  begun : Bool
  pend : List UInt8
  pendCap : Nat
  chunk : Option Nat
  chunkLen : Nat
  q : RingBuf Item
  freeq : Stack Nat
  mem : Nat → Ptr
  stop : Bool
  wrErr : Bool
  file : List UInt8
  calls : List Call
  todo : List Op
  refill : Bool
  asleep : Option Cond
  writer : Writer
  closed : Bool

/-- `pcapng_open`, before the given calls. -/
def pcapngOpen (calls : List Call) : State where
  begun := false
  pend := []
  pendCap := 0
  chunk := none
  chunkLen := 0
  q := { slots := fun _ => ⟨0, 0⟩, first := 0, next := 0, count := 0 }
  freeq := { slots := id, count := wqSlots }
  mem := fun _ _ => 0
  stop := false
  wrErr := false
  file := []
  calls := calls
  todo := []
  refill := false
  asleep := none
  writer := .acquire
  closed := false

/-- A signal to the producer. -/
def signal (c : Cond) (s : State) : State :=
  if s.asleep = some c then { s with asleep := none } else s

/-- `pthread_cond_signal(&p->nonempty)`, whose one waiter is the
writer. -/
def signalNonempty (s : State) : State :=
  match s.writer with
  | .asleep => { s with writer := .acquire }
  | _ => s

/-! ## The producer -/

/-- `buf_get_free`: `none` while it waits, otherwise the buffer or
`NULL`. -/
def bufGetFree (s : State) : Option (Option Nat × State) :=
  if s.freeq.count = 0 ∧ s.wrErr = false then none
  else if s.freeq.count = 0 then some (none, s)
  else some (some s.freeq.top, { s with freeq := s.freeq.pop })

/-- One round of the loop of `sink_write`, or the step out of it. A round
that has to get a chunk first is two steps. -/
def copyStep (s : State) (k : List Op) (d : List UInt8) : State :=
  if d = [] then { s with todo := .liveFlush :: k }
  else
    match s.chunk with
    | none =>
        match bufGetFree s with
        | none => { s with asleep := some .freecv }
        | some (none, s) => { s with wrErr := true, todo := k }
        | some (some b, s) => { s with chunk := some b }
    | some c =>
        let take := min d.length (wqChunk - s.chunkLen)
        let len := s.chunkLen + take
        let more := .copy (d.drop take) :: k
        { s with
          mem := Function.update s.mem c (memcpy (s.mem c) s.chunkLen (d.take take))
          chunkLen := len
          todo := if len = wqChunk then .chunkFlush :: more else more }

/-- `chunk_flush`, up to its second critical section. -/
def chunkFlush (s : State) (k : List Op) : State :=
  match s.chunk with
  | none => { s with todo := k }
  | some c =>
      if s.chunkLen = 0 then { s with todo := k }
      else if s.q.count = wqSlots ∧ s.wrErr = false then { s with asleep := some .nonfull }
      else if s.wrErr = true then { s with chunkLen := 0, todo := k }
      else
        signalNonempty
          { s with q := s.q.push wqSlots ⟨c, s.chunkLen⟩, refill := true, todo := k }

/-- The rest of `chunk_flush`. -/
def refillChunk (s : State) : State :=
  match bufGetFree s with
  | none => { s with asleep := some .freecv }
  | some (b, s) => { s with chunk := b, chunkLen := 0, refill := false }

/-- A piece of the producer's code; `k` is what comes after it. -/
def opStep (due : Bool) (s : State) (k : List Op) : Op → Option State
  | .sinkWrite d =>
      if s.begun = false ∨ s.wrErr = true then some { s with todo := k }
      else some { s with todo := .copy d :: k }
  | .copy d => some (copyStep s k d)
  | .liveFlush =>
      if s.chunk.isSome ∧ 0 < s.chunkLen ∧ due then some { s with todo := .chunkFlush :: k }
      else some { s with todo := k }
  | .chunkFlush => some (chunkFlush s k)
  | .drain =>
      if s.q.count ≠ 0 ∧ s.wrErr = false then some { s with asleep := some .freecv }
      else some { s with todo := k }
  | .stop => some (signalNonempty { s with stop := true, todo := k })
  | .join =>
      if s.writer = .exited then some { s with closed := true, todo := k } else none

/-- `pend_cap` when it has to hold `need` bytes: doubled once at most. -/
def growPend (cap need : Nat) : Nat :=
  if need > cap then (if cap = 0 then 65536 else cap * 2) else cap

/-- Staging before `pcapng_begin`. There is no next state when the
doubled capacity is no `int` and `os_realloc` gives up, or when the copy
would leave the allocation. -/
def stage (s : State) (block : List UInt8) : Option State :=
  let need := s.pend.length + block.length
  if intMax < growPend s.pendCap need ∨ growPend s.pendCap need < need then none
  else some { s with pend := s.pend ++ block, pendCap := growPend s.pendCap need }

/-- The end of `send_buffer`. -/
def sendBuffer (s : State) (block : List UInt8) : Option State :=
  if s.begun = true then some { s with todo := .sinkWrite block :: s.todo } else stage s block

/-- `pcapng_flush`. -/
def pcapngFlush (s : State) : List Op := if s.begun = true then [.chunkFlush, .drain] else []

/-- A call of the API; a second `pcapng_begin` fails its assertion. -/
def call (s : State) : Call → Option State
  | .begin linkType =>
      if s.begun = true then none
      else
        some { s with
          begun := true
          todo := [.sinkWrite fileHeader, .sinkWrite (usbHeader linkType), .sinkWrite infoHeader] ++
            if s.pend = [] then [] else [.sinkWrite s.pend] }
  | .write (.epb ts data) => sendBuffer s (epbBlock ts data)
  | .write (.info ts str) => sendBuffer { s with todo := [.chunkFlush] } (infoBlock ts str)
  | .write .flush => some { s with todo := pcapngFlush s }
  | .close => some { s with todo := pcapngFlush s ++ [.stop, .join] }

/-- A step of the thread that makes the calls. -/
def producerStep (due : Bool) (s : State) : Option State :=
  if s.asleep ≠ none then none
  else if s.refill = true then some (refillChunk s)
  else
    match s.todo with
    | op :: k => opStep due s k op
    | [] =>
        match s.calls with
        | [] => none
        | c :: more => call { s with calls := more } c

/-! ## The writer -/

/-- The bytes of a queued chunk. -/
def itemBytes (mem : Nat → Ptr) (it : Item) : List UInt8 := bytesAt (mem it.buf) it.len

/-- The first critical section of `writer_main`. -/
def takeItem (s : State) : State :=
  if s.q.count = 0 ∧ s.stop = false then { s with writer := .asleep }
  else if s.q.count = 0 ∧ s.stop = true then { s with writer := .exited }
  else signal .nonfull { s with q := s.q.pop wqSlots, writer := .write s.q.front 0 }

/-- One `fwrite` that accepts `n` bytes, or the end of the loop. -/
def writeOut (s : State) (it : Item) (off n : Nat) : Option State :=
  if it.len ≤ off then some { s with writer := .release it.buf }
  else if it.len - off < n then none
  else if n = 0 then some { s with wrErr := true, writer := .release it.buf }
  else
    some { s with
      file := s.file ++ ((itemBytes s.mem it).drop off).take n
      writer := .write it (off + n) }

/-- The second critical section of `writer_main`. -/
def giveBack (s : State) (b : Nat) : State :=
  signal .freecv { s with freeq := s.freeq.push b, writer := .acquire }

/-- A step of `writer_main`; `n` is what `fwrite` returns in it. -/
def writerStep (n : Nat) (s : State) : Option State :=
  match s.writer with
  | .acquire => some (takeItem s)
  | .asleep => none
  | .write it off => writeOut s it off n
  | .release b => some (giveBack s b)
  | .exited => none

/-! ## Runs -/

/-- What can happen next. A thread asleep may wake up unsignalled. -/
inductive Action where
  | produce (due : Bool)
  | write (n : Nat)
  | wakeProducer
  | wakeWriter
  deriving DecidableEq, Repr

def step (s : State) : Action → Option State
  | .produce due => producerStep due s
  | .write n => writerStep n s
  | .wakeProducer => if s.asleep ≠ none then some { s with asleep := none } else none
  | .wakeWriter => if s.writer = .asleep then some (signalNonempty s) else none

/-- One step of either thread. -/
def Step (s s' : State) : Prop := ∃ a, step s a = some s'

/-- `fwrite` does not fail. -/
def Action.accepts : Action → Bool
  | .write n => n ≠ 0
  | _ => true

/-- One step, in which `fwrite` does not fail. -/
def WritingStep (s s' : State) : Prop := ∃ a, a.accepts = true ∧ step s a = some s'

/-- A given schedule, as long as it is possible and `fwrite` does not
fail. -/
def exec (s : State) : List Action → Option State
  | [] => some s
  | a :: more =>
      if a.accepts = true then
        match step s a with
        | none => none
        | some s' => exec s' more
      else none

theorem exec_run {s s' : State} {as : List Action} (h : exec s as = some s') :
    Relation.ReflTransGen WritingStep s s' := by
  induction as generalizing s with
  | nil =>
      cases h
      exact Relation.ReflTransGen.refl
  | cons a more ih =>
      rw [exec] at h
      split at h
      · rename_i hacc
        split at h
        · cases h
        · rename_i mid hmid
          exact Relation.ReflTransGen.head ⟨a, hacc, hmid⟩ (ih h)
      · cases h

end UsbSniffer.Pcapng
