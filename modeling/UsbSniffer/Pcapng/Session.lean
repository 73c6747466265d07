import UsbSniffer.Pcapng.Ownership

/-!
# A session of the writer

A session is any calls around one `pcapng_begin`, and `pcapng_close` at
the end. `Script` says where in it the producer can be, whatever `fwrite`
returns. From it, from who holds which chunk and from the room in the
current one follows that the session never gets stuck: neither on a
condition nor in the staging buffer.
-/

namespace UsbSniffer.Pcapng

open Lib Uhsif

/-- Calls around one `pcapng_begin`, then `pcapng_close`. -/
def session (pre : List Write) (linkType : UInt32) (post : List Write) : List Call :=
  pre.map .write ++ .begin linkType :: (post.map .write ++ [.close])

/-- The blocks `pcapng_begin` writes. -/
def headers (linkType : UInt32) : List UInt8 := fileHeader ++ usbHeader linkType ++ infoHeader

/-- The blocks of some calls, in call order. -/
def blocks (ws : List Write) : List UInt8 := (ws.map Write.block).flatten

/-- The bytes that may be staged before `pcapng_begin`. -/
def stagingLimit : Nat := 2 ^ 30

@[simp] theorem blocks_nil : blocks [] = [] := rfl

@[simp] theorem blocks_cons (w : Write) (ws : List Write) :
    blocks (w :: ws) = w.block ++ blocks ws := rfl

/-! ## The current chunk has room -/

/-- Without a chunk there is nothing staged, and a full chunk is flushed
before anything else is done. -/
structure Room (s : State) : Prop where
  unstarted : s.chunk = none → s.chunkLen = 0
  room : s.refill = false → s.chunkLen < wqChunk ∨ ∃ k, s.todo = .chunkFlush :: k

theorem wqChunk_pos : 0 < wqChunk := by decide

namespace Room

variable {s s' : State}

theorem of_lt (hu : s.chunk = none → s.chunkLen = 0) (hlt : s.chunkLen < wqChunk) : Room s :=
  ⟨hu, fun _ => Or.inl hlt⟩

theorem lt (h : Room s) (hr : s.refill = false) {op : Op} {k : List Op} (ht : s.todo = op :: k)
    (hop : op ≠ .chunkFlush) : s.chunkLen < wqChunk := by
  rcases h.room hr with hlt | ⟨k', hk⟩
  · exact hlt
  · exact absurd (List.cons.inj (ht.symm.trans hk)).1 hop

theorem move (h : Room s) {a : Action} (hm : Move a s s') : Room s' := by
  cases hm with
  | refillWait ha hr hf he => exact ⟨h.unstarted, h.room⟩
  | refillNull ha hr he => exact of_lt (fun _ => rfl) wqChunk_pos
  | refillGot ha hr hf => exact of_lt (fun _ => rfl) wqChunk_pos
  | sinkSkip ha hr ht hg => exact of_lt h.unstarted (h.lt hr ht nofun)
  | sinkEnter ha hr ht => exact of_lt h.unstarted (h.lt hr ht nofun)
  | copyDone ha hr ht => exact of_lt h.unstarted (h.lt hr ht nofun)
  | copyWait ha hr ht hc hf he => exact ⟨h.unstarted, h.room⟩
  | copyNull ha hr ht hc he => exact of_lt h.unstarted (h.lt hr ht nofun)
  | copyGot ha hr ht hc hf => exact of_lt nofun (h.lt hr ht nofun)
  | copyPart ha hr ht hd hc hn hfl =>
      -- a flush goes in front exactly when the chunk is full
      have hlt := h.lt hr ht nofun
      refine ⟨by simp [hc], fun _ => ?_⟩
      split at hfl
      · subst hfl
        exact Or.inr ⟨_, rfl⟩
      · rename_i hfull
        exact Or.inl (by show s.chunkLen + _ < wqChunk; omega)
  | liveFlush ha hr ht hfl => exact of_lt h.unstarted (h.lt hr ht nofun)
  | flushEmpty ha hr ht hc =>
      have hzero : s.chunkLen = 0 := hc.elim h.unstarted id
      exact of_lt (fun _ => hzero) (by show s.chunkLen < _; rw [hzero]; exact wqChunk_pos)
  | flushWait ha hr ht hc hq => exact ⟨h.unstarted, h.room⟩
  | flushDiscard ha hr ht hc he => exact of_lt (fun _ => rfl) wqChunk_pos
  | flushQueue ha hr ht hc hl =>
      rw [signalNonempty_with]
      exact ⟨h.unstarted, nofun⟩
  | drainWait ha hr ht hq => exact ⟨h.unstarted, h.room⟩
  | drainDone ha hr ht => exact of_lt h.unstarted (h.lt hr ht nofun)
  | stop ha hr ht =>
      rw [signalNonempty_with]
      exact of_lt h.unstarted (h.lt hr ht nofun)
  | join ha hr ht hw => exact of_lt h.unstarted (h.lt hr ht nofun)
  | call ha hr ht hc hs =>
      obtain ⟨b, p, cap, todo, rfl⟩ := call_eq hs
      refine of_lt h.unstarted ?_
      rcases h.room hr with hlt | ⟨k, hk⟩
      · exact hlt
      · cases ht.symm.trans hk
  | sleep hw hq hs => exact ⟨h.unstarted, h.room⟩
  | exit hw hq hs => exact ⟨h.unstarted, h.room⟩
  | take hw hq =>
      rw [signal_with]
      exact ⟨h.unstarted, h.room⟩
  | written hw hoff => exact ⟨h.unstarted, h.room⟩
  | fail hw => exact ⟨h.unstarted, h.room⟩
  | accept hw hn hpos => exact ⟨h.unstarted, h.room⟩
  | giveBack hw =>
      rw [signal_with]
      exact ⟨h.unstarted, h.room⟩
  | wakeProducer => exact ⟨h.unstarted, h.room⟩
  | wakeWriter =>
      rw [signalNonempty_with]
      exact ⟨h.unstarted, h.room⟩

end Room

theorem room_pcapngOpen (calls : List Call) : Room (pcapngOpen calls) :=
  .of_lt (fun _ => rfl) wqChunk_pos

/-! ## Where the producer can be -/

/-- The operations that come before the wait of `pcapng_flush`. -/
def Op.isData : Op → Bool
  | .sinkWrite _ => true
  | .copy _ => true
  | .liveFlush => true
  | .chunkFlush => true
  | _ => false

/-- The operations of `sink_write`. -/
def Op.inSink : Op → Bool
  | .sinkWrite _ => true
  | .copy _ => true
  | .liveFlush => true
  | _ => false

/-- The calls to come, what is left of the current one, `stop`, and
whether `pcapng_close` is through. -/
inductive Plan : List Call → List Op → Bool → Bool → Prop where
  | data {calls : List Call} {todo : List Op} (hc : calls ≠ []) (h : ∀ op ∈ todo, op.isData = true) :
      Plan calls todo false false
  | flush {calls : List Call} (hc : calls ≠ []) : Plan calls [.chunkFlush, .drain] false false
  | drain {calls : List Call} (hc : calls ≠ []) : Plan calls [.drain] false false
  | closeFlush : Plan [] [.chunkFlush, .drain, .stop, .join] false false
  | closeDrain : Plan [] [.drain, .stop, .join] false false
  | closeStop : Plan [] [.stop, .join] false false
  | closeJoin : Plan [] [.join] true false
  | closed : Plan [] [] true true

namespace Plan

variable {calls : List Call} {k : List Op} {stop closed : Bool}

/-- Inside `sink_write` only operations on data follow. -/
theorem sink {op : Op} (h : Plan calls (op :: k) stop closed) (hop : op.inSink = true) :
    calls ≠ [] ∧ ∀ o ∈ k, o.isData = true := by
  cases h with
  | data hc ht => exact ⟨hc, fun o ho => ht o (List.mem_cons_of_mem _ ho)⟩
  | flush hc => cases hop
  | drain hc => cases hop
  | closeFlush => cases hop
  | closeDrain => cases hop
  | closeStop => cases hop
  | closeJoin => cases hop

/-- `sink_write` goes on with other operations on data. -/
theorem goOn {op : Op} (h : Plan calls (op :: k) stop closed) (hop : op.inSink = true)
    {ops : List Op} (hops : ∀ o ∈ ops, o.isData = true) : Plan calls (ops ++ k) stop closed := by
  obtain ⟨hc, hk⟩ := h.sink hop
  have hdata : ∀ o ∈ ops ++ k, o.isData = true := by
    intro o ho
    rcases List.mem_append.mp ho with ho | ho
    · exact hops o ho
    · exact hk o ho
  cases h with
  | data => exact .data hc hdata
  | flush => exact .data hc hdata
  | drain => exact .data hc hdata
  | closeFlush => exact absurd rfl hc
  | closeDrain => exact absurd rfl hc
  | closeStop => exact absurd rfl hc
  | closeJoin => exact absurd rfl hc

theorem flushed (h : Plan calls (.chunkFlush :: k) stop closed) : Plan calls k stop closed := by
  cases h with
  | data hc ht => exact .data hc fun o ho => ht o (List.mem_cons_of_mem _ ho)
  | flush hc => exact .drain hc
  | closeFlush => exact .closeDrain

theorem drained (h : Plan calls (.drain :: k) stop closed) : Plan calls k stop closed := by
  cases h with
  | data hc ht => exact absurd (ht _ List.mem_cons_self) (by decide)
  | drain hc => exact .data hc nofun
  | closeDrain => exact .closeStop

theorem stopping (h : Plan calls (.stop :: k) stop closed) : Plan calls k true closed := by
  cases h with
  | data hc ht => exact absurd (ht _ List.mem_cons_self) (by decide)
  | closeStop => exact .closeJoin

theorem joining (h : Plan calls (.join :: k) stop closed) :
    stop = true ∧ Plan calls k stop true := by
  cases h with
  | data hc ht => exact absurd (ht _ List.mem_cons_self) (by decide)
  | closeJoin => exact ⟨rfl, .closed⟩

/-- `stop` is not set while anything but the join is left. -/
theorem running {op : Op} (h : Plan calls (op :: k) stop closed) (hop : op ≠ .join) :
    stop = false := by
  cases h with
  | closeJoin => exact absurd rfl hop
  | _ => rfl

theorem calling {todo : List Op} (h : Plan calls todo stop closed) (hc : calls ≠ []) :
    stop = false ∧ closed = false := by
  cases h with
  | data => exact ⟨rfl, rfl⟩
  | flush => exact ⟨rfl, rfl⟩
  | drain => exact ⟨rfl, rfl⟩
  | closeFlush => exact absurd rfl hc
  | closeDrain => exact absurd rfl hc
  | closeStop => exact absurd rfl hc
  | closeJoin => exact absurd rfl hc
  | closed => exact absurd rfl hc

end Plan

/-- The staging buffer: what is in it fits, and if there is one, it is
larger than a block. -/
structure Staging (len cap : Nat) : Prop where
  len_le : len ≤ cap
  cap_le : cap ≤ intMax
  cap_ge : cap = 0 ∨ blockBufSize ≤ cap

/-- Before `pcapng_begin`: what is staged, and will be, stays within the
limit, and each block fits the assembly buffer. -/
structure Before (s : State) : Prop where
  todo : ∀ op ∈ s.todo, op = .chunkFlush
  calls : ∃ pre linkType post, s.calls = session pre linkType post ∧
    s.pend.length + (blocks pre).length < stagingLimit ∧ ∀ w ∈ pre, w.Fits
  staging : Staging s.pend.length s.pendCap

/-- Where a session can be, whatever `fwrite` returns. -/
structure Script (s : State) : Prop where
  plan : Plan s.calls s.todo s.stop s.closed
  before : s.begun = false → Before s
  after : s.begun = true → s.calls = [] ∨ ∃ post : List Write, s.calls = post.map .write ++ [.close]
  stopped : s.stop = true → s.refill = false ∧ s.asleep = none
  exited : s.writer = .exited → s.stop = true ∧ s.q.count = 0
  joined : s.closed = true → s.writer = .exited

/-- The same, however much is staged. -/
structure Course (s : State) : Prop where
  plan : Plan s.calls s.todo s.stop s.closed
  before : s.begun = false → (∀ op ∈ s.todo, op = .chunkFlush) ∧
    ∃ pre linkType post, s.calls = session pre linkType post
  after : s.begun = true → s.calls = [] ∨ ∃ post : List Write, s.calls = post.map .write ++ [.close]
  stopped : s.stop = true → s.refill = false ∧ s.asleep = none
  exited : s.writer = .exited → s.stop = true ∧ s.q.count = 0
  joined : s.closed = true → s.writer = .exited

theorem Script.course {s : State} (h : Script s) : Course s where
  plan := h.plan
  before := by
    intro hb
    obtain ⟨ht, ⟨pre, linkType, post, hc, -, -⟩, -⟩ := h.before hb
    exact ⟨ht, pre, linkType, post, hc⟩
  after := h.after
  stopped := h.stopped
  exited := h.exited
  joined := h.joined

theorem Course.script {s : State} (h : Course s) (hb : s.begun = false → Before s) : Script s :=
  ⟨h.plan, hb, h.after, h.stopped, h.exited, h.joined⟩

theorem course_pcapngOpen (pre post : List Write) (linkType : UInt32) :
    Course (pcapngOpen (session pre linkType post)) where
  plan := .data (by simp [pcapngOpen, session]) nofun
  before := fun _ => ⟨nofun, pre, linkType, post, rfl⟩
  after := nofun
  stopped := nofun
  exited := nofun
  joined := nofun

theorem script_pcapngOpen {pre post : List Write} {linkType : UInt32}
    (hfit : ∀ w ∈ pre, w.Fits) (hpend : (blocks pre).length < stagingLimit) :
    Script (pcapngOpen (session pre linkType post)) :=
  (course_pcapngOpen pre post linkType).script fun _ =>
    { todo := nofun
      calls := ⟨pre, linkType, post, rfl, by simpa [pcapngOpen] using hpend, hfit⟩
      staging := ⟨Nat.le_refl 0, Nat.zero_le _, Or.inl rfl⟩ }

/-! ## Calls -/

/-- What a call leaves to do once the session has begun. -/
def Write.ops : Write → List Op
  | .epb ts data => [.sinkWrite (epbBlock ts data)]
  | .info ts str => [.sinkWrite (infoBlock ts str), .chunkFlush]
  | .flush => [.chunkFlush, .drain]

theorem call_write {s : State} (hb : s.begun = true) (ht : s.todo = []) (w : Write) :
    call s (.write w) = some { s with todo := w.ops } := by
  cases w with
  | epb ts data => simp [call, sendBuffer, hb, ht, Write.ops]
  | info ts str => simp [call, sendBuffer, hb, Write.ops]
  | flush => simp [call, pcapngFlush, hb, Write.ops]

theorem call_close {s : State} (hb : s.begun = true) :
    call s .close = some { s with todo := [.chunkFlush, .drain, .stop, .join] } := by
  simp [call, pcapngFlush, hb]

theorem Staging.grow {len cap n : Nat} (h : Staging len cap)
    (hint : ¬ (intMax < growPend cap (len + n) ∨ growPend cap (len + n) < len + n)) :
    Staging (len + n) (growPend cap (len + n)) := by
  refine ⟨by omega, by omega, ?_⟩
  have hge := h.cap_ge
  rw [blockBufSize] at *
  rw [growPend]
  split
  · split
    · omega
    · omega
  · exact hge

/-- **Doubling once is enough**, and does not leave the range of `int`,
as long as the block fits the assembly buffer and the limit is kept. -/
theorem Staging.room {len cap n : Nat} (h : Staging len cap) (hn : n ≤ blockBufSize)
    (hlim : len + n < stagingLimit) :
    ¬ (intMax < growPend cap (len + n) ∨ growPend cap (len + n) < len + n) := by
  obtain ⟨hlen, hint, hge⟩ := h
  rw [blockBufSize] at hn hge
  rw [stagingLimit] at hlim
  rw [intMax] at *
  rw [growPend]
  split
  · split
    · omega
    · omega
  · omega

/-- A block that fits and keeps the limit is staged. -/
theorem sendBuffer_staged {s : State} {block : List UInt8} (hb : s.begun = false)
    (hst : Staging s.pend.length s.pendCap) (hfit : block.length ≤ blockBufSize)
    (hlim : s.pend.length + block.length < stagingLimit) :
    ∃ cap, sendBuffer s block = some { s with pend := s.pend ++ block, pendCap := cap } ∧
      Staging (s.pend ++ block).length cap := by
  have hroom := hst.room hfit hlim
  rw [sendBuffer, if_neg (by simp [hb]), stage]
  exact ⟨_, if_neg hroom, List.length_append ▸ hst.grow hroom⟩

theorem call_staged {s : State} {w : Write} (hb : s.begun = false) (ht : s.todo = [])
    (hst : Staging s.pend.length s.pendCap) (hfit : w.Fits)
    (hlim : s.pend.length + w.block.length < stagingLimit) :
    ∃ cap todo, call s (.write w) =
        some { s with pend := s.pend ++ w.block, pendCap := cap, todo := todo } ∧
      (todo = [] ∨ todo = [.chunkFlush]) ∧ Staging (s.pend ++ w.block).length cap := by
  rw [Write.Fits] at hfit
  cases w with
  | epb ts data =>
      rw [Write.block] at *
      rw [call]
      obtain ⟨cap, he, hcap⟩ := sendBuffer_staged hb hst hfit hlim
      exact ⟨cap, s.todo, he, Or.inl ht, hcap⟩
  | info ts str =>
      rw [Write.block] at *
      rw [call]
      obtain ⟨cap, he, hcap⟩ :=
        sendBuffer_staged (s := { s with todo := [.chunkFlush] }) hb hst hfit hlim
      exact ⟨cap, [.chunkFlush], he, Or.inr rfl, hcap⟩
  | flush =>
      refine ⟨s.pendCap, [], ?_, Or.inl rfl, ?_⟩
      · simp [call, pcapngFlush, hb, Write.block]
      · simpa [Write.block] using hst

/-- The calls a session can make in a state, with the calls left and the
state after each. -/
inductive Called (s : State) : Call → List Call → State → Prop where
  | close (hb : s.begun = true) :
      Called s .close [] { s with calls := [], todo := [.chunkFlush, .drain, .stop, .join] }
  | write (hb : s.begun = true) (w : Write) (post : List Write) :
      Called s (.write w) (post.map .write ++ [.close])
        { s with calls := post.map .write ++ [.close], todo := w.ops }
  | begin (hb : s.begun = false) (linkType : UInt32) (post : List Write) :
      Called s (.begin linkType) (post.map .write ++ [.close])
        { s with
          calls := post.map .write ++ [.close]
          begun := true
          todo := [.sinkWrite fileHeader, .sinkWrite (usbHeader linkType), .sinkWrite infoHeader] ++
            if s.pend = [] then [] else [.sinkWrite s.pend] }
  | stage (hb : s.begun = false) {w : Write} {pre post : List Write} {linkType : UInt32}
      (hlim : (s.pend ++ w.block).length + (blocks pre).length < stagingLimit)
      (hfit : ∀ v ∈ pre, v.Fits) {cap : Nat} {todo : List Op}
      (htodo : todo = [] ∨ todo = [.chunkFlush]) (hst : Staging (s.pend ++ w.block).length cap) :
      Called s (.write w) (session pre linkType post)
        { s with
          calls := session pre linkType post
          pend := s.pend ++ w.block
          pendCap := cap
          todo := todo }

/-- The same, however much is staged. -/
inductive Taken (s : State) : Call → List Call → State → Prop where
  | close (hb : s.begun = true) :
      Taken s .close [] { s with calls := [], todo := [.chunkFlush, .drain, .stop, .join] }
  | write (hb : s.begun = true) (w : Write) (post : List Write) :
      Taken s (.write w) (post.map .write ++ [.close])
        { s with calls := post.map .write ++ [.close], todo := w.ops }
  | begin (hb : s.begun = false) (linkType : UInt32) (post : List Write) :
      Taken s (.begin linkType) (post.map .write ++ [.close])
        { s with
          calls := post.map .write ++ [.close]
          begun := true
          todo := [.sinkWrite fileHeader, .sinkWrite (usbHeader linkType), .sinkWrite infoHeader] ++
            if s.pend = [] then [] else [.sinkWrite s.pend] }
  | stage (hb : s.begun = false) {w : Write} {pre post : List Write} {linkType : UInt32} {cap : Nat}
      {todo : List Op} (htodo : todo = [] ∨ todo = [.chunkFlush]) :
      Taken s (.write w) (session pre linkType post)
        { s with
          calls := session pre linkType post
          pend := s.pend ++ w.block
          pendCap := cap
          todo := todo }

/-- A block that is staged, whatever its size. -/
theorem sendBuffer_unbegun {s s' : State} {block : List UInt8} (hb : s.begun = false)
    (h : sendBuffer s block = some s') :
    ∃ cap, s' = { s with pend := s.pend ++ block, pendCap := cap } := by
  rw [sendBuffer, if_neg (by simp [hb]), stage] at h
  split at h
  · cases h
  · cases h
    exact ⟨_, rfl⟩

theorem call_unbegun {s s' : State} {w : Write} (hb : s.begun = false) (ht : s.todo = [])
    (h : call s (.write w) = some s') :
    ∃ cap todo, s' = { s with pend := s.pend ++ w.block, pendCap := cap, todo := todo } ∧
      (todo = [] ∨ todo = [.chunkFlush]) := by
  cases w with
  | epb ts data =>
      rw [call] at h
      obtain ⟨cap, he⟩ := sendBuffer_unbegun hb h
      exact ⟨cap, s.todo, he, Or.inl ht⟩
  | info ts str =>
      rw [call] at h
      obtain ⟨cap, he⟩ := sendBuffer_unbegun (s := { s with todo := [.chunkFlush] }) hb h
      exact ⟨cap, [.chunkFlush], he, Or.inr rfl⟩
  | flush =>
      have hnone : pcapngFlush s = [] := by simp [pcapngFlush, hb]
      rw [call, hnone] at h
      refine ⟨s.pendCap, [], ?_, Or.inl rfl⟩
      rw [← Option.some.inj h, Write.block, List.append_nil]

/-! ## Every step follows the script -/

namespace Course

/-- Before `pcapng_begin` there is nothing to do but `chunk_flush`, which
finds no chunk. -/
theorem begun_of_head {s : State} (h : Course s) {op : Op} {k : List Op} (ht : s.todo = op :: k)
    (hop : op ≠ .chunkFlush) : s.begun = true := by
  cases hb : s.begun with
  | true => rfl
  | false => exact absurd ((h.before hb).1 op (ht ▸ List.mem_cons_self)) hop

theorem running {s : State} (h : Course s) {op : Op} {k : List Op} (ht : s.todo = op :: k)
    (hop : op ≠ .join) : s.stop = false := by
  have hp := h.plan
  rw [ht] at hp
  exact hp.running hop

theorem refilling {s : State} (h : Course s) (hr : s.refill = true) : s.stop = false := by
  cases hs : s.stop with
  | false => rfl
  | true => exact absurd hr (by simp [(h.stopped hs).1])

/-- The producer goes on, short of `stop`. -/
theorem advance {s s' : State} (h : Course s) (hs : s.stop = false)
    (hplan : Plan s.calls s'.todo s.stop s.closed)
    (htodo : s.begun = false → ∀ op ∈ s'.todo, op = .chunkFlush)
    (hsame : s'.calls = s.calls ∧ s'.begun = s.begun ∧ s'.stop = s.stop ∧
      s'.closed = s.closed)
    (hw : s'.writer = .exited → s.writer = .exited) : Course s' := by
  obtain ⟨hcalls, hbegun, hstop, hclosed⟩ := hsame
  have hrun : s.writer ≠ .exited := fun hx => by simp [(h.exited hx).1] at hs
  refine ⟨?_, ?_, ?_, ?_, ?_, ?_⟩
  · rw [hcalls, hstop, hclosed]
    exact hplan
  · intro hb
    rw [hbegun] at hb
    obtain ⟨-, hc⟩ := h.before hb
    rw [hcalls]
    exact ⟨htodo hb, hc⟩
  · rw [hbegun, hcalls]
    exact h.after
  · intro hx
    rw [hstop, hs] at hx
    cases hx
  · exact fun hx => absurd (hw hx) hrun
  · intro hx
    rw [hclosed] at hx
    exact absurd (h.joined hx) hrun

/-- Inside `sink_write`. -/
theorem sinkStep {s s' : State} (h : Course s) (ops : List Op) {op : Op} {k : List Op}
    (ht : s.todo = op :: k) (hop : op.inSink = true) (hops : ∀ o ∈ ops, o.isData = true) (htodo : s'.todo = ops ++ k)
    (hsame : s'.calls = s.calls ∧ s'.begun = s.begun ∧ s'.stop = s.stop ∧
      s'.closed = s.closed)
    (hw : s'.writer = s.writer) : Course s' := by
  have hp := h.plan
  rw [ht] at hp
  have hb : s.begun = true := h.begun_of_head ht (by rintro rfl; cases hop)
  refine h.advance (hp.running (by rintro rfl; cases hop)) ?_ ?_ hsame (hw ▸ id)
  · rw [htodo]
    exact hp.goOn hop hops
  · simp [hb]

/-- The end of `chunk_flush`, or of its first part. -/
theorem flushStep {s s' : State} (h : Course s) {k : List Op} (ht : s.todo = .chunkFlush :: k)
    (htodo : s'.todo = k)
    (hsame : s'.calls = s.calls ∧ s'.begun = s.begun ∧ s'.stop = s.stop ∧
      s'.closed = s.closed)
    (hw : s'.writer = .exited → s.writer = .exited) : Course s' := by
  have hp := h.plan
  rw [ht] at hp
  refine h.advance (hp.running nofun) ?_ ?_ hsame hw
  · rw [htodo]
    exact hp.flushed
  · intro hb op hop
    rw [htodo] at hop
    exact (h.before hb).1 op (ht ▸ List.mem_cons_of_mem _ hop)

/-- The producer stays where it is. -/
theorem stay {s s' : State} (h : Course s) (hs : s.stop = false)
    (hsame : s'.calls = s.calls ∧ s'.begun = s.begun ∧ s'.stop = s.stop ∧
      s'.closed = s.closed)
    (htodo : s'.todo = s.todo) (hw : s'.writer = s.writer) : Course s' := by
  refine h.advance hs ?_ ?_ hsame (hw ▸ id)
  · rw [htodo]
    exact h.plan
  · rw [htodo]
    exact fun hb => (h.before hb).1

/-- A step of the writer, or a wake-up. -/
theorem behind {s s' : State} (h : Course s)
    (hsame : s'.calls = s.calls ∧ s'.begun = s.begun ∧ s'.stop = s.stop ∧
      s'.closed = s.closed)
    (htodo : s'.todo = s.todo) (hr : s'.refill = s.refill)
    (ha : s'.asleep = s.asleep ∨ s'.asleep = none)
    (hx : s'.writer = .exited → s.stop = true ∧ s'.q.count = 0)
    (hj : s.writer = .exited → s'.writer = .exited) : Course s' := by
  obtain ⟨hcalls, hbegun, hstop, hclosed⟩ := hsame
  refine ⟨?_, ?_, ?_, ?_, ?_, ?_⟩
  · rw [hcalls, htodo, hstop, hclosed]
    exact h.plan
  · intro hb
    rw [hbegun] at hb
    rw [htodo, hcalls]
    exact h.before hb
  · rw [hbegun, hcalls]
    exact h.after
  · intro hs
    rw [hstop] at hs
    obtain ⟨hrf, hal⟩ := h.stopped hs
    refine ⟨hr ▸ hrf, ?_⟩
    rcases ha with ha | ha
    · rw [ha, hal]
    · exact ha
  · rw [hstop]
    exact hx
  · intro hc
    rw [hclosed] at hc
    exact hj (h.joined hc)

/-- The calls of a session that go through. -/
theorem taken_of_call {s s' : State} (h : Course s) {c : Call} {more : List Call}
    (ht : s.todo = []) (hc : s.calls = c :: more)
    (hs : call { s with calls := more } c = some s') : Taken s c more s' := by
  rcases Bool.eq_false_or_eq_true s.begun with hb | hb
  · -- the section header is out: writes up to the close
    rcases h.after hb with hnil | ⟨post, hpost⟩
    · rw [hc] at hnil
      cases hnil
    · rw [hc] at hpost
      cases post with
      | nil =>
          obtain ⟨rfl, rfl⟩ := List.cons.inj hpost
          cases (call_close (s := { s with calls := [] }) hb).symm.trans hs
          exact .close hb
      | cons w post' =>
          rw [List.map_cons, List.cons_append] at hpost
          obtain ⟨rfl, rfl⟩ := List.cons.inj hpost
          cases (call_write (s := { s with calls := post'.map .write ++ [.close] }) hb ht w).symm.trans
            hs
          exact .write hb w post'
  · -- staged writes up to `pcapng_begin`
    obtain ⟨-, pre, linkType, post, hsession⟩ := h.before hb
    rw [hc] at hsession
    cases pre with
    | nil =>
        obtain ⟨rfl, rfl⟩ := List.cons.inj hsession
        rw [call, if_neg (by simp [hb])] at hs
        cases hs
        exact .begin hb linkType post
    | cons w pre' =>
        obtain ⟨rfl, rfl⟩ := List.cons.inj hsession
        obtain ⟨cap, todo, rfl, htodo⟩ :=
          call_unbegun (s := { s with calls := session pre' linkType post }) hb ht hs
        exact .stage hb htodo

theorem callStep {s s' : State} (h : Course s) {c : Call} {more : List Call} (ht : s.todo = [])
    (hc : s.calls = c :: more) (hs : call { s with calls := more } c = some s') : Course s' := by
  have hplan := h.plan
  rw [hc] at hplan
  obtain ⟨hstop, hclosed⟩ := hplan.calling (List.cons_ne_nil _ _)
  have hrun : s.writer ≠ .exited := fun hx => by simp [(h.exited hx).1] at hstop
  -- what a call cannot break, whatever it sets out to do
  have hrest : ∀ t : State, Plan t.calls t.todo false false → (t.begun = false → (∀ op ∈ t.todo, op = .chunkFlush) ∧
        ∃ pre linkType post, t.calls = session pre linkType post) →
      (t.begun = true → t.calls = [] ∨ ∃ post : List Write, t.calls = post.map .write ++ [.close]) →
      t.stop = s.stop → t.writer = s.writer → t.closed = s.closed → Course t := by
    intro t hp hb ha hst hw hcl
    rw [hstop] at hst
    rw [hclosed] at hcl
    refine ⟨?_, hb, ha, ?_, ?_, ?_⟩
    · rw [hst, hcl]
      exact hp
    · simp [hst]
    · exact fun hx => absurd (hw ▸ hx) hrun
    · simp [hcl]
  cases h.taken_of_call ht hc hs with
  | close hb => exact hrest _ .closeFlush (by simp [hb]) (fun _ => Or.inl rfl) rfl rfl rfl
  | write hb w post =>
      refine hrest _ ?_ (by simp [hb]) (fun _ => Or.inr ⟨post, rfl⟩) rfl rfl rfl
      cases w with
      | epb ts data => exact .data (by simp) (by simp [Write.ops, Op.isData])
      | info ts str => exact .data (by simp) (by simp [Write.ops, Op.isData])
      | flush => exact .flush (by simp)
  | begin hb linkType post =>
      refine hrest _ (.data (by simp) fun op hop => ?_) nofun (fun _ => Or.inr ⟨post, rfl⟩) rfl rfl rfl
      obtain ⟨d, rfl⟩ : ∃ d, op = .sinkWrite d := by
        split at hop
        · simp only [List.append_nil, List.mem_cons, List.not_mem_nil, or_false] at hop
          rcases hop with rfl | rfl | rfl
          all_goals exact ⟨_, rfl⟩
        · simp only [List.cons_append, List.nil_append, List.mem_cons, List.not_mem_nil,
            or_false] at hop
          rcases hop with rfl | rfl | rfl | rfl
          all_goals exact ⟨_, rfl⟩
      rfl
  | stage hb htodo =>
      refine hrest _ (.data (by simp [session]) ?_) (fun _ => ⟨?_, _, _, _, rfl⟩) (by simp [hb])
        rfl rfl rfl
      · rcases htodo with rfl | rfl
        · nofun
        · simp [Op.isData]
      · rcases htodo with rfl | rfl
        · nofun
        · simp

/-- The writer woken up is where it was, or back at its loop. -/
theorem woken_exited {s : State} {w : Writer}
    (hcase : w = s.writer ∨ (s.writer = .asleep ∧ w = .acquire)) :
    (w = .exited → s.writer = .exited) ∧ (s.writer = .exited → w = .exited) := by
  rcases hcase with rfl | ⟨hs, rfl⟩
  · exact ⟨id, id⟩
  · exact ⟨nofun, fun hx => absurd (hs.symm.trans hx) nofun⟩

theorem move {s s' : State} {a : Action} (h : Course s) (hm : Move a s s') : Course s' := by
  have hsame : s.calls = s.calls ∧ s.begun = s.begun ∧ s.stop = s.stop ∧ s.closed = s.closed :=
    ⟨rfl, rfl, rfl, rfl⟩
  cases hm with
  | refillWait ha hr hf he => exact h.stay (h.refilling hr) hsame rfl rfl
  | refillNull ha hr he => exact h.stay (h.refilling hr) hsame rfl rfl
  | refillGot ha hr hf => exact h.stay (h.refilling hr) hsame rfl rfl
  | sinkSkip ha hr ht hg => exact h.sinkStep [] ht rfl nofun rfl hsame rfl
  | sinkEnter ha hr ht =>
      exact h.sinkStep [.copy _] ht rfl (by simp [Op.isData]) rfl hsame rfl
  | copyDone ha hr ht =>
      exact h.sinkStep [.liveFlush] ht rfl (by simp [Op.isData]) rfl hsame rfl
  | copyWait ha hr ht hc hf he => exact h.stay (h.running ht nofun) hsame rfl rfl
  | copyNull ha hr ht hc he => exact h.sinkStep [] ht rfl nofun rfl hsame rfl
  | copyGot ha hr ht hc hf => exact h.stay (h.running ht nofun) hsame rfl rfl
  | copyPart ha hr ht hd hc hn hfl =>
      rcases flush_of_round hfl with rfl | rfl
      · exact h.sinkStep [.copy _] ht rfl (by simp [Op.isData]) rfl hsame rfl
      · exact h.sinkStep [.chunkFlush, .copy _] ht rfl (by simp [Op.isData]) rfl hsame rfl
  | liveFlush ha hr ht hfl =>
      rcases hfl with rfl | rfl
      · exact h.sinkStep [] ht rfl nofun rfl hsame rfl
      · exact h.sinkStep [.chunkFlush] ht rfl (by simp [Op.isData]) rfl hsame rfl
  | flushEmpty ha hr ht hc => exact h.flushStep ht rfl hsame id
  | flushWait ha hr ht hc hq => exact h.stay (h.running ht nofun) hsame rfl rfl
  | flushDiscard ha hr ht hc he => exact h.flushStep ht rfl hsame id
  | @flushQueue _ _ k c ha hr ht hc hl =>
      obtain ⟨w, he, -, hcase⟩ := signalNonempty_eq
        { s with q := s.q.push wqSlots ⟨c, s.chunkLen⟩, refill := true, todo := k }
      rw [he]
      exact h.flushStep ht rfl hsame (woken_exited hcase).1
  | drainWait ha hr ht hq => exact h.stay (h.running ht nofun) hsame rfl rfl
  | drainDone ha hr ht =>
      have hp := h.plan
      rw [ht] at hp
      refine h.advance (h.running ht nofun) hp.drained (fun hb => ?_) hsame id
      simp [h.begun_of_head ht nofun] at hb
  | @stop _ _ k ha hr ht =>
      have hp := h.plan
      rw [ht] at hp
      have hb := h.begun_of_head ht nofun
      obtain ⟨w, he, -, hcase⟩ := signalNonempty_eq { s with stop := true, todo := k }
      obtain ⟨hexit, hjoin⟩ := woken_exited hcase
      rw [he]
      exact ⟨hp.stopping, by simp [hb], h.after, fun _ => ⟨hr, ha⟩,
        fun hx => ⟨rfl, (h.exited (hexit hx)).2⟩, fun hx => hjoin (h.joined hx)⟩
  | join ha hr ht hw =>
      have hp := h.plan
      rw [ht] at hp
      have hb := h.begun_of_head ht nofun
      exact ⟨hp.joining.2, by simp [hb], h.after, h.stopped, h.exited, fun _ => hw⟩
  | call ha hr ht hc hs => exact h.callStep ht hc hs
  | sleep hw hq hs =>
      exact h.behind hsame rfl rfl (Or.inl rfl) nofun fun hx => absurd (hw.symm.trans hx) nofun
  | exit hw hq hs => exact h.behind hsame rfl rfl (Or.inl rfl) (fun _ => ⟨hs, hq⟩) fun _ => rfl
  | take hw hq =>
      obtain ⟨a, he, -, hcase⟩ := signal_eq .nonfull
        { s with q := s.q.pop wqSlots, writer := .write s.q.front 0 }
      rw [he]
      exact h.behind hsame rfl rfl hcase nofun fun hx => absurd (hw.symm.trans hx) nofun
  | written hw hoff =>
      exact h.behind hsame rfl rfl (Or.inl rfl) nofun fun hx => absurd (hw.symm.trans hx) nofun
  | fail hw =>
      exact h.behind hsame rfl rfl (Or.inl rfl) nofun fun hx => absurd (hw.symm.trans hx) nofun
  | accept hw hn hpos =>
      exact h.behind hsame rfl rfl (Or.inl rfl) nofun fun hx => absurd (hw.symm.trans hx) nofun
  | @giveBack _ _ b hw =>
      obtain ⟨a, he, -, hcase⟩ := signal_eq .freecv
        { s with freeq := s.freeq.push b, writer := .acquire }
      rw [he]
      exact h.behind hsame rfl rfl hcase nofun fun hx => absurd (hw.symm.trans hx) nofun
  | wakeProducer => exact h.behind hsame rfl rfl (Or.inr rfl) h.exited id
  | wakeWriter =>
      obtain ⟨w, he, -, hcase⟩ := signalNonempty_eq s
      obtain ⟨hexit, hjoin⟩ := woken_exited hcase
      rw [he]
      exact h.behind hsame rfl rfl (Or.inl rfl) (fun hx => h.exited (hexit hx)) hjoin

end Course

/-- What only a call changes. -/
theorem Move.kept {s s' : State} {a : Action} (hm : Move a s s') :
    (s'.calls = s.calls ∧ s'.begun = s.begun ∧ s'.pend = s.pend ∧ s'.pendCap = s.pendCap) ∨
      ∃ c more, s.todo = [] ∧ s.calls = c :: more ∧
        Pcapng.call { s with calls := more } c = some s' := by
  cases hm with
  | call ha hr ht hc hs => exact Or.inr ⟨_, _, ht, hc, hs⟩
  | flushQueue ha hr ht hc hl =>
      rw [signalNonempty_with]
      exact Or.inl ⟨rfl, rfl, rfl, rfl⟩
  | stop ha hr ht =>
      rw [signalNonempty_with]
      exact Or.inl ⟨rfl, rfl, rfl, rfl⟩
  | take hw hq =>
      rw [signal_with]
      exact Or.inl ⟨rfl, rfl, rfl, rfl⟩
  | giveBack hw =>
      rw [signal_with]
      exact Or.inl ⟨rfl, rfl, rfl, rfl⟩
  | wakeWriter =>
      rw [signalNonempty_with]
      exact Or.inl ⟨rfl, rfl, rfl, rfl⟩
  | _ => exact Or.inl ⟨rfl, rfl, rfl, rfl⟩

namespace Script

/-- The next call of a session goes through. -/
theorem called {s : State} (h : Script s) {c : Call} {more : List Call} (ht : s.todo = [])
    (hc : s.calls = c :: more) :
    ∃ s', call { s with calls := more } c = some s' ∧ Called s c more s' := by
  rcases Bool.eq_false_or_eq_true s.begun with hb | hb
  · rcases h.after hb with hnil | ⟨post, hpost⟩
    · rw [hc] at hnil
      cases hnil
    · rw [hc] at hpost
      cases post with
      | nil =>
          obtain ⟨rfl, rfl⟩ := List.cons.inj hpost
          exact ⟨_, call_close (s := { s with calls := [] }) hb, .close hb⟩
      | cons w post' =>
          rw [List.map_cons, List.cons_append] at hpost
          obtain ⟨rfl, rfl⟩ := List.cons.inj hpost
          exact ⟨_, call_write (s := { s with calls := post'.map .write ++ [.close] }) hb ht w,
            .write hb w post'⟩
  · obtain ⟨-, ⟨pre, linkType, post, hsession, hlim, hfit⟩, hst⟩ := h.before hb
    rw [hc] at hsession
    cases pre with
    | nil =>
        obtain ⟨rfl, rfl⟩ := List.cons.inj hsession
        exact ⟨_, if_neg (by simp [hb]), .begin hb linkType post⟩
    | cons w pre' =>
        obtain ⟨rfl, rfl⟩ := List.cons.inj hsession
        rw [blocks_cons, List.length_append] at hlim
        obtain ⟨cap, todo, he, htodo, hcap⟩ :=
          call_staged (s := { s with calls := session pre' linkType post }) hb ht hst
            (hfit w List.mem_cons_self) (by show s.pend.length + _ < _; omega)
        refine ⟨_, he, .stage hb ?_ (fun v hv => hfit v (List.mem_cons_of_mem _ hv)) htodo hcap⟩
        rw [List.length_append]
        omega

theorem called_of_call {s s' : State} (h : Script s) {c : Call} {more : List Call}
    (ht : s.todo = []) (hc : s.calls = c :: more)
    (hs : call { s with calls := more } c = some s') : Called s c more s' := by
  obtain ⟨s'', he, hcalled⟩ := h.called ht hc
  rw [hs] at he
  cases he
  exact hcalled

/-- The bounds on what is staged are kept along the course. -/
theorem move {s s' : State} {a : Action} (h : Script s) (hm : Move a s s') : Script s' := by
  have hcourse := h.course.move hm
  refine hcourse.script fun hb' => ?_
  rcases hm.kept with ⟨hcalls, hbegun, hpend, hcap⟩ | ⟨c, more, ht, hc, hs⟩
  · obtain ⟨-, hlim, hst⟩ := h.before (hbegun.symm.trans hb')
    refine ⟨(hcourse.before hb').1, ?_, ?_⟩
    · rw [hcalls, hpend]
      exact hlim
    · rw [hpend, hcap]
      exact hst
  · cases h.called_of_call ht hc hs with
    | close hb => simp [hb] at hb'
    | write hb w post => simp [hb] at hb'
    | begin hb linkType post => cases hb'
    | stage hb hlim hfit htodo hst =>
        exact ⟨(hcourse.before hb').1, ⟨_, _, _, rfl, hlim, hfit⟩, hst⟩

/-! ## It never gets stuck -/

theorem writer_moves {s : State} (ha : s.writer ≠ .asleep) (hx : s.writer ≠ .exited) :
    ∃ s', step s (.write 1) = some s' := by
  simp only [step, writerStep]
  cases hw : s.writer with
  | acquire => exact ⟨_, rfl⟩
  | asleep => exact absurd hw ha
  | write it off =>
      simp only [writeOut]
      by_cases hoff : it.len ≤ off
      · exact ⟨_, if_pos hoff⟩
      · refine ⟨_, (if_neg hoff).trans ((if_neg ?_).trans (if_neg Nat.one_ne_zero))⟩
        omega
  | release b => exact ⟨_, rfl⟩
  | exited => exact absurd hw hx

theorem op_moves (s : State) (k : List Op) {op : Op} (hop : op ≠ .join) :
    ∃ s', opStep false s k op = some s' := by
  cases op with
  | sinkWrite d =>
      simp only [opStep]
      split
      · exact ⟨_, rfl⟩
      · exact ⟨_, rfl⟩
  | copy d => exact ⟨_, rfl⟩
  | liveFlush =>
      simp only [opStep]
      split
      · exact ⟨_, rfl⟩
      · exact ⟨_, rfl⟩
  | chunkFlush => exact ⟨_, rfl⟩
  | drain =>
      simp only [opStep]
      split
      · exact ⟨_, rfl⟩
      · exact ⟨_, rfl⟩
  | stop => exact ⟨_, rfl⟩
  | join => exact absurd rfl hop

theorem producerStep_op {s : State} {due : Bool} {op : Op} {k : List Op} (ha : s.asleep = none)
    (hr : s.refill = false) (ht : s.todo = op :: k) : producerStep due s = opStep due s k op := by
  rw [producerStep, if_neg (not_not.mpr ha), if_neg (by simp [hr])]
  split
  · rename_i op' k' ht'
    obtain ⟨rfl, rfl⟩ := List.cons.inj (ht.symm.trans ht')
    rfl
  · rename_i ht'
    cases ht.symm.trans ht'

theorem producerStep_call {s : State} {due : Bool} {c : Call} {more : List Call}
    (ha : s.asleep = none) (hr : s.refill = false) (ht : s.todo = []) (hc : s.calls = c :: more) :
    producerStep due s = call { s with calls := more } c := by
  rw [producerStep, if_neg (not_not.mpr ha), if_neg (by simp [hr])]
  split
  · rename_i op' k' ht'
    cases ht.symm.trans ht'
  · split
    · rename_i hc'
      cases hc.symm.trans hc'
    · rename_i c' more' hc'
      obtain ⟨rfl, rfl⟩ := List.cons.inj (hc.symm.trans hc')
      rfl

theorem progress {s : State} (h : Script s) (hi : Inv s) (hc : s.closed = false) :
    (∃ s', step s (.produce false) = some s') ∨ ∃ s', step s (.write 1) = some s' := by
  by_cases ha : s.asleep = none
  · by_cases hr : s.refill = true
    · refine Or.inl ⟨refillChunk s, ?_⟩
      rw [step, producerStep, if_neg (not_not.mpr ha), if_pos hr]
    · have hr' := Bool.eq_false_of_not_eq_true hr
      have hp := h.plan
      cases ht : s.todo with
      | nil =>
          cases hcalls : s.calls with
          | nil =>
              rw [hcalls, ht, hc] at hp
              generalize s.stop = stop at hp
              cases hp with
              | data hne _ => exact absurd rfl hne
          | cons c more =>
              obtain ⟨s', hs', -⟩ := h.called ht hcalls
              rw [step, producerStep_call ha hr' ht hcalls]
              exact Or.inl ⟨s', hs'⟩
      | cons op k =>
          rw [step, producerStep_op ha hr' ht]
          by_cases hop : op = .join
          · subst hop
            rw [ht] at hp
            by_cases hx : s.writer = .exited
            · exact Or.inl ⟨_, if_pos hx⟩
            · -- `stop` is set, so the writer is on its way out
              refine Or.inr (writer_moves (fun hw => ?_) hx)
              have hs := (hi.writer_asleep hw).1
              rw [hp.joining.1] at hs
              cases hs
          · exact Or.inl (op_moves s k hop)
  · refine Or.inr (writer_moves (fun hw => hi.not_both_asleep ⟨ha, hw⟩) fun hx => ?_)
    exact ha (h.stopped (h.exited hx).1).2

end Script

/-! ## What holds in every run of a session -/

/-- All that holds of a session, whatever `fwrite` returns. -/
structure Valid (s : State) : Prop where
  inv : Inv s
  script : Script s
  room : Room s

/-- What of it holds however much is staged. -/
structure Orderly (s : State) : Prop where
  inv : Inv s
  course : Course s
  room : Room s

theorem Valid.orderly {s : State} (h : Valid s) : Orderly s := ⟨h.inv, h.script.course, h.room⟩

theorem orderly_pcapngOpen (pre post : List Write) (linkType : UInt32) :
    Orderly (pcapngOpen (session pre linkType post)) :=
  ⟨inv_pcapngOpen _, course_pcapngOpen pre post linkType, room_pcapngOpen _⟩

theorem Orderly.move {s s' : State} {a : Action} (h : Orderly s) (hm : Move a s s') : Orderly s' :=
  ⟨h.inv.move hm, h.course.move hm, h.room.move hm⟩

theorem valid_pcapngOpen {pre post : List Write} {linkType : UInt32}
    (hfit : ∀ w ∈ pre, w.Fits) (hpend : (blocks pre).length < stagingLimit) :
    Valid (pcapngOpen (session pre linkType post)) :=
  ⟨inv_pcapngOpen _, script_pcapngOpen hfit hpend, room_pcapngOpen _⟩

theorem Valid.move {s s' : State} {a : Action} (h : Valid s) (hm : Move a s s') : Valid s' :=
  ⟨h.inv.move hm, h.script.move hm, h.room.move hm⟩

theorem Valid.run {s s' : State} (h : Valid s) (hrun : Relation.ReflTransGen Step s s') :
    Valid s' :=
  run_keeps (fun _ _ ⟨_, hs⟩ h => h.move (move_of_step hs)) hrun h

/-- **A session never gets stuck**: until `pcapng_close` is through, one
of the threads can go on, without any wake-up from outside. -/
theorem Valid.progress {s : State} (h : Valid s) (hc : s.closed = false) :
    (∃ s', step s (.produce false) = some s') ∨ ∃ s', step s (.write 1) = some s' :=
  h.script.progress h.inv hc

end UsbSniffer.Pcapng
