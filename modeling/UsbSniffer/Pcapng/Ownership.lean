import UsbSniffer.Pcapng.Writer

/-!
# Who holds which chunk

The steps of the two threads one by one (`Move`), and what holds in every
run whatever `fwrite` returns: each of the 32 buffers is in one place,
and the threads never wait for each other.
-/

namespace UsbSniffer.Pcapng

open Lib Uhsif

/-! ## The steps one by one -/

/-- Every step with its guard. The names follow the source: `refill` is
the end of `chunk_flush`, `copy` the loop of `sink_write`. -/
inductive Move : Action → State → State → Prop where
  | refillWait {s : State} {due : Bool} (ha : s.asleep = none) (hr : s.refill = true)
      (hf : s.freeq.count = 0) (he : s.wrErr = false) :
      Move (.produce due) s { s with asleep := some .freecv }
  | refillNull {s : State} {due : Bool} (ha : s.asleep = none) (hr : s.refill = true)
      (he : s.wrErr = true) :
      Move (.produce due) s { s with chunk := none, chunkLen := 0, refill := false }
  | refillGot {s : State} {due : Bool} (ha : s.asleep = none) (hr : s.refill = true)
      (hf : 0 < s.freeq.count) :
      Move (.produce due) s
        { s with freeq := s.freeq.pop, chunk := some s.freeq.top, chunkLen := 0, refill := false }
  | sinkSkip {s : State} {due : Bool} {k : List Op} {d : List UInt8} (ha : s.asleep = none)
      (hr : s.refill = false) (ht : s.todo = .sinkWrite d :: k)
      (hg : s.begun = false ∨ s.wrErr = true) : Move (.produce due) s { s with todo := k }
  | sinkEnter {s : State} {due : Bool} {k : List Op} {d : List UInt8} (ha : s.asleep = none)
      (hr : s.refill = false) (ht : s.todo = .sinkWrite d :: k) :
      Move (.produce due) s { s with todo := .copy d :: k }
  | copyDone {s : State} {due : Bool} {k : List Op} (ha : s.asleep = none) (hr : s.refill = false)
      (ht : s.todo = .copy [] :: k) : Move (.produce due) s { s with todo := .liveFlush :: k }
  | copyWait {s : State} {due : Bool} {k : List Op} {d : List UInt8} (ha : s.asleep = none)
      (hr : s.refill = false) (ht : s.todo = .copy d :: k) (hc : s.chunk = none)
      (hf : s.freeq.count = 0) (he : s.wrErr = false) :
      Move (.produce due) s { s with asleep := some .freecv }
  | copyNull {s : State} {due : Bool} {k : List Op} {d : List UInt8} (ha : s.asleep = none)
      (hr : s.refill = false) (ht : s.todo = .copy d :: k) (hc : s.chunk = none)
      (he : s.wrErr = true) : Move (.produce due) s { s with wrErr := true, todo := k }
  | copyGot {s : State} {due : Bool} {k : List Op} {d : List UInt8} (ha : s.asleep = none)
      (hr : s.refill = false) (ht : s.todo = .copy d :: k) (hc : s.chunk = none)
      (hf : 0 < s.freeq.count) :
      Move (.produce due) s { s with freeq := s.freeq.pop, chunk := some s.freeq.top }
  | copyPart {s : State} {due : Bool} {k : List Op} {d : List UInt8} {c n : Nat}
      (ha : s.asleep = none) (hr : s.refill = false) (ht : s.todo = .copy d :: k) (hd : d ≠ [])
      (hc : s.chunk = some c) (hn : n = min d.length (wqChunk - s.chunkLen)) {f : List Op}
      (hfl : if s.chunkLen + n = wqChunk then f = [.chunkFlush] else f = []) :
      Move (.produce due) s
        { s with
          mem := Function.update s.mem c (memcpy (s.mem c) s.chunkLen (d.take n))
          chunkLen := s.chunkLen + n
          todo := f ++ .copy (d.drop n) :: k }
  | liveFlush {s : State} {due : Bool} {k : List Op} (ha : s.asleep = none) (hr : s.refill = false)
      (ht : s.todo = .liveFlush :: k) {f : List Op} (hfl : f = [] ∨ f = [.chunkFlush]) :
      Move (.produce due) s { s with todo := f ++ k }
  | flushEmpty {s : State} {due : Bool} {k : List Op} (ha : s.asleep = none)
      (hr : s.refill = false) (ht : s.todo = .chunkFlush :: k)
      (hc : s.chunk = none ∨ s.chunkLen = 0) : Move (.produce due) s { s with todo := k }
  | flushWait {s : State} {due : Bool} {k : List Op} {c : Nat} (ha : s.asleep = none)
      (hr : s.refill = false) (ht : s.todo = .chunkFlush :: k) (hc : s.chunk = some c)
      (hq : s.q.count = wqSlots) : Move (.produce due) s { s with asleep := some .nonfull }
  | flushDiscard {s : State} {due : Bool} {k : List Op} {c : Nat} (ha : s.asleep = none)
      (hr : s.refill = false) (ht : s.todo = .chunkFlush :: k) (hc : s.chunk = some c)
      (he : s.wrErr = true) : Move (.produce due) s { s with chunkLen := 0, todo := k }
  | flushQueue {s : State} {due : Bool} {k : List Op} {c : Nat} (ha : s.asleep = none)
      (hr : s.refill = false) (ht : s.todo = .chunkFlush :: k) (hc : s.chunk = some c)
      (hl : s.chunkLen ≠ 0) :
      Move (.produce due) s
        (signalNonempty
          { s with q := s.q.push wqSlots ⟨c, s.chunkLen⟩, refill := true, todo := k })
  | drainWait {s : State} {due : Bool} {k : List Op} (ha : s.asleep = none) (hr : s.refill = false)
      (ht : s.todo = .drain :: k) (hq : s.q.count ≠ 0) :
      Move (.produce due) s { s with asleep := some .freecv }
  | drainDone {s : State} {due : Bool} {k : List Op} (ha : s.asleep = none) (hr : s.refill = false)
      (ht : s.todo = .drain :: k) : Move (.produce due) s { s with todo := k }
  | stop {s : State} {due : Bool} {k : List Op} (ha : s.asleep = none) (hr : s.refill = false)
      (ht : s.todo = .stop :: k) :
      Move (.produce due) s (signalNonempty { s with stop := true, todo := k })
  | join {s : State} {due : Bool} {k : List Op} (ha : s.asleep = none) (hr : s.refill = false)
      (ht : s.todo = .join :: k) (hw : s.writer = .exited) :
      Move (.produce due) s { s with closed := true, todo := k }
  | call {s s' : State} {due : Bool} {c : Call} {more : List Call} (ha : s.asleep = none)
      (hr : s.refill = false) (ht : s.todo = []) (hc : s.calls = c :: more)
      (hs : call { s with calls := more } c = some s') : Move (.produce due) s s'
  | sleep {s : State} {n : Nat} (hw : s.writer = .acquire) (hq : s.q.count = 0)
      (hs : s.stop = false) : Move (.write n) s { s with writer := .asleep }
  | exit {s : State} {n : Nat} (hw : s.writer = .acquire) (hq : s.q.count = 0)
      (hs : s.stop = true) : Move (.write n) s { s with writer := .exited }
  | take {s : State} {n : Nat} (hw : s.writer = .acquire) (hq : 0 < s.q.count) :
      Move (.write n) s
        (signal .nonfull { s with q := s.q.pop wqSlots, writer := .write s.q.front 0 })
  | written {s : State} {n off : Nat} {it : Item} (hw : s.writer = .write it off)
      (hoff : it.len ≤ off) : Move (.write n) s { s with writer := .release it.buf }
  | fail {s : State} {off : Nat} {it : Item} (hw : s.writer = .write it off) :
      Move (.write 0) s { s with wrErr := true, writer := .release it.buf }
  | accept {s : State} {n off : Nat} {it : Item} (hw : s.writer = .write it off)
      (hn : n ≤ it.len - off) (hpos : n ≠ 0) :
      Move (.write n) s
        { s with
          file := s.file ++ ((itemBytes s.mem it).drop off).take n
          writer := .write it (off + n) }
  | giveBack {s : State} {n b : Nat} (hw : s.writer = .release b) :
      Move (.write n) s (signal .freecv { s with freeq := s.freeq.push b, writer := .acquire })
  | wakeProducer {s : State} : Move .wakeProducer s { s with asleep := none }
  | wakeWriter {s : State} : Move .wakeWriter s (signalNonempty s)

/-- A round of the copy ends with `chunk_flush` or without. -/
theorem flush_of_round {full : Prop} [Decidable full] {f : List Op}
    (h : if full then f = [.chunkFlush] else f = []) : f = [] ∨ f = [.chunkFlush] := by
  split at h
  · exact Or.inr h
  · exact Or.inl h

/-- The outcomes of `buf_get_free`. -/
theorem bufGetFree_cases (s : State) :
    (bufGetFree s = none ∧ s.freeq.count = 0 ∧ s.wrErr = false) ∨
    (bufGetFree s = some (none, s) ∧ s.wrErr = true) ∨
    (bufGetFree s = some (some s.freeq.top, { s with freeq := s.freeq.pop }) ∧
      0 < s.freeq.count) := by
  rw [bufGetFree]
  by_cases hf : s.freeq.count = 0
  · cases he : s.wrErr with
    | false => exact Or.inl ⟨by simp [hf], hf, rfl⟩
    | true => exact Or.inr (Or.inl ⟨by simp [hf], rfl⟩)
  · exact Or.inr (Or.inr ⟨by simp [hf], Nat.pos_of_ne_zero hf⟩)

theorem move_of_refill {s : State} {due : Bool} (ha : s.asleep = none) (hr : s.refill = true) :
    Move (.produce due) s (refillChunk s) := by
  rcases bufGetFree_cases s with ⟨hb, hf, he⟩ | ⟨hb, he⟩ | ⟨hb, hf⟩
  · simp only [refillChunk, hb]
    exact .refillWait ha hr hf he
  · simp only [refillChunk, hb]
    exact .refillNull ha hr he
  · simp only [refillChunk, hb]
    exact .refillGot ha hr hf

theorem move_of_copy {s : State} {due : Bool} {k : List Op} {d : List UInt8}
    (ha : s.asleep = none) (hr : s.refill = false) (ht : s.todo = .copy d :: k) :
    Move (.produce due) s (copyStep s k d) := by
  rw [copyStep]
  by_cases hd : d = []
  · rw [if_pos hd]
    exact .copyDone ha hr (hd ▸ ht)
  · rw [if_neg hd]
    split
    · rename_i hc
      rcases bufGetFree_cases s with ⟨hb, hf, he⟩ | ⟨hb, he⟩ | ⟨hb, hf⟩
      · simp only [hb]
        exact .copyWait ha hr ht hc hf he
      · simp only [hb]
        exact .copyNull ha hr ht hc he
      · simp only [hb]
        exact .copyGot ha hr ht hc hf
    · rename_i c hc
      by_cases hl : s.chunkLen + min d.length (wqChunk - s.chunkLen) = wqChunk
      · simp only [if_pos hl]
        exact .copyPart ha hr ht hd hc rfl (f := [.chunkFlush]) (by rw [if_pos hl])
      · simp only [if_neg hl]
        exact .copyPart ha hr ht hd hc rfl (f := []) (by rw [if_neg hl])

theorem move_of_chunkFlush {s : State} {due : Bool} {k : List Op}
    (ha : s.asleep = none) (hr : s.refill = false) (ht : s.todo = .chunkFlush :: k) :
    Move (.produce due) s (chunkFlush s k) := by
  rw [chunkFlush]
  split
  · exact .flushEmpty ha hr ht (Or.inl ‹_›)
  · rename_i c hc
    split
    · exact .flushEmpty ha hr ht (Or.inr ‹_›)
    · rename_i hl
      split
      · exact .flushWait ha hr ht hc (And.left ‹_›)
      · split
        · exact .flushDiscard ha hr ht hc ‹_›
        · exact .flushQueue ha hr ht hc hl

theorem move_of_op {s s' : State} {due : Bool} {k : List Op} {op : Op} (ha : s.asleep = none)
    (hr : s.refill = false) (ht : s.todo = op :: k) (h : opStep due s k op = some s') :
    Move (.produce due) s s' := by
  cases op with
  | sinkWrite d =>
      simp only [opStep] at h
      split at h
      · cases h
        exact .sinkSkip ha hr ht ‹_›
      · cases h
        exact .sinkEnter ha hr ht
  | copy d =>
      cases h
      exact move_of_copy ha hr ht
  | liveFlush =>
      simp only [opStep] at h
      split at h
      · cases h
        exact .liveFlush ha hr ht (Or.inr rfl)
      · cases h
        exact .liveFlush ha hr ht (Or.inl rfl)
  | chunkFlush =>
      cases h
      exact move_of_chunkFlush ha hr ht
  | drain =>
      simp only [opStep] at h
      split at h
      · cases h
        exact .drainWait ha hr ht (And.left ‹_›)
      · cases h
        exact .drainDone ha hr ht
  | stop =>
      cases h
      exact .stop ha hr ht
  | join =>
      simp only [opStep] at h
      split at h
      · cases h
        exact .join ha hr ht ‹_›
      · cases h

theorem move_of_producerStep {s s' : State} {due : Bool} (h : producerStep due s = some s') :
    Move (.produce due) s s' := by
  rw [producerStep] at h
  by_cases ha : s.asleep = none
  · rw [if_neg (not_not.mpr ha)] at h
    cases hr : s.refill with
    | true =>
        rw [if_pos hr] at h
        cases h
        exact move_of_refill ha hr
    | false =>
        rw [if_neg (by simp [hr])] at h
        split at h
        · rename_i op k ht
          exact move_of_op ha hr ht h
        · rename_i ht
          split at h
          · cases h
          · rename_i c more hc
            exact .call ha hr ht hc h
  · rw [if_pos ha] at h
    cases h

theorem move_of_takeItem {s : State} {n : Nat} (hw : s.writer = .acquire) :
    Move (.write n) s (takeItem s) := by
  rw [takeItem]
  by_cases hq : s.q.count = 0
  · split
    · exact .sleep hw hq (And.right ‹_›)
    · rename_i hs
      have hstop : s.stop = true := by simpa [hq] using hs
      rw [if_pos ⟨hq, hstop⟩]
      exact .exit hw hq hstop
  · rw [if_neg (fun hx => hq hx.1), if_neg (fun hx => hq hx.1)]
    exact .take hw (Nat.pos_of_ne_zero hq)

theorem move_of_writerStep {s s' : State} {n : Nat} (h : writerStep n s = some s') :
    Move (.write n) s s' := by
  rw [writerStep] at h
  cases hw : s.writer with
  | acquire =>
      simp only [hw, Option.some.injEq] at h
      exact h ▸ move_of_takeItem hw
  | asleep => simp [hw] at h
  | write it off =>
      simp only [hw, writeOut] at h
      split at h
      · cases h
        exact .written hw ‹_›
      · split at h
        · cases h
        · split at h
          · rename_i hn
            cases h
            exact hn ▸ .fail hw
          · rename_i hle hn
            cases h
            exact .accept hw (Nat.le_of_not_lt hle) hn
  | release b =>
      simp only [hw, Option.some.injEq] at h
      exact h ▸ .giveBack hw
  | exited => simp [hw] at h

theorem move_of_step {s s' : State} {a : Action} (h : step s a = some s') : Move a s s' := by
  cases a with
  | produce due => exact move_of_producerStep h
  | write n => exact move_of_writerStep h
  | wakeProducer =>
      simp only [step] at h
      split at h
      · cases h
        exact .wakeProducer
      · cases h
  | wakeWriter =>
      simp only [step] at h
      split at h
      · cases h
        exact .wakeWriter
      · cases h

/-! ## Signals and calls -/

/-- The buffer in the writer's hands. -/
def Writer.held : Writer → Multiset Nat
  | .write it _ => {it.buf}
  | .release b => {b}
  | _ => 0

theorem signalNonempty_eq (s : State) :
    ∃ w, signalNonempty s = { s with writer := w } ∧ w ≠ .asleep ∧
      (w = s.writer ∨ (s.writer = .asleep ∧ w = .acquire)) := by
  rw [signalNonempty]
  split
  · exact ⟨.acquire, rfl, nofun, Or.inr ⟨‹_›, rfl⟩⟩
  · exact ⟨s.writer, rfl, ‹_›, Or.inl rfl⟩

/-- The same without the writer's place, for those who only count
buffers. -/
theorem signalNonempty_held (s : State) :
    ∃ w, signalNonempty s = { s with writer := w } ∧ w ≠ .asleep ∧ w.held = s.writer.held := by
  obtain ⟨w, he, hw, hcase⟩ := signalNonempty_eq s
  refine ⟨w, he, hw, ?_⟩
  rcases hcase with rfl | ⟨hs, rfl⟩
  · rfl
  · rw [hs]
    rfl

theorem signal_eq (c : Cond) (s : State) :
    ∃ a, signal c s = { s with asleep := a } ∧ a ≠ some c ∧ (a = s.asleep ∨ a = none) := by
  rw [signal]
  split
  · exact ⟨none, rfl, nofun, Or.inr rfl⟩
  · exact ⟨s.asleep, rfl, ‹_›, Or.inl rfl⟩

/-- A signal changes nothing else. -/
theorem signalNonempty_with (s : State) :
    signalNonempty s = { s with writer := (signalNonempty s).writer } := by
  rw [signalNonempty]
  split
  · rfl
  · rfl

theorem signal_with (c : Cond) (s : State) :
    signal c s = { s with asleep := (signal c s).asleep } := by
  rw [signal]
  split
  · rfl
  · rfl

theorem sendBuffer_eq {s s' : State} {block : List UInt8} (h : sendBuffer s block = some s') :
    ∃ p cap todo, s' = { s with pend := p, pendCap := cap, todo := todo } := by
  rw [sendBuffer] at h
  split at h
  · cases h
    exact ⟨_, _, _, rfl⟩
  · rw [stage] at h
    split at h
    · cases h
    · cases h
      exact ⟨_, _, _, rfl⟩

/-- A call only sets out what is to be done. -/
theorem call_eq {s s' : State} {c : Call} (h : call s c = some s') :
    ∃ b p cap todo, s' = { s with begun := b, pend := p, pendCap := cap, todo := todo } := by
  cases c with
  | begin linkType =>
      simp only [call] at h
      split at h
      · cases h
      · cases h
        exact ⟨_, _, _, _, rfl⟩
  | write w =>
      cases w with
      | epb ts data =>
          obtain ⟨p, cap, todo, rfl⟩ := sendBuffer_eq h
          exact ⟨_, _, _, _, rfl⟩
      | info ts str =>
          obtain ⟨p, cap, todo, rfl⟩ := sendBuffer_eq h
          exact ⟨_, _, _, _, rfl⟩
      | flush =>
          cases h
          exact ⟨_, _, _, _, rfl⟩
  | close =>
      cases h
      exact ⟨_, _, _, _, rfl⟩

/-! ## The invariant -/

/-- The buffer in the producer's hands. Once `chunk_flush` has queued the
chunk, it is the producer's no more. -/
def hand (s : State) : Multiset Nat := if s.refill = true then 0 else (s.chunk.toList : Multiset Nat)

/-- All buffers: the free ones, those in the ring, the current chunk and
the writer's. -/
def owned (s : State) : Multiset Nat :=
  pool wqSlots Item.buf s.freeq s.q (hand s + s.writer.held)

/-- The ring is in order, and every buffer is in exactly one place. -/
structure Core (s : State) : Prop where
  ring : s.q.Wf wqSlots
  owned_eq : owned s = Multiset.range wqSlots

/-- `Core`, and what a sleeping thread knows. The producer never waits
for a slot: it brings a buffer of its own. When it waits for `freecv`,
there is a chunk queued or being written, whose return will wake it. The
writer sleeps on an empty ring only. -/
structure Inv (s : State) : Prop extends Core s where
  nonfull : s.asleep ≠ some .nonfull
  freecv : s.asleep = some .freecv → 0 < s.q.count + s.writer.held.card
  writer_asleep : s.writer = .asleep → s.stop = false ∧ s.q.count = 0

theorem hand_refill {s : State} (hr : s.refill = true) : hand s = 0 := by
  rw [hand, if_pos hr]

theorem hand_none {s : State} (hc : s.chunk = none) : hand s = 0 := by
  rw [hand, hc]
  split
  · rfl
  · rfl

theorem hand_some {s : State} {c : Nat} (hr : s.refill = false) (hc : s.chunk = some c) :
    hand s = {c} := by
  rw [hand, hr, hc]
  rfl

theorem Core.count_eq {s : State} (h : Core s) :
    s.freeq.count + s.q.count + ((hand s).card + s.writer.held.card) = wqSlots := by
  have hc := congrArg Multiset.card h.owned_eq
  rwa [owned, pool_card, Multiset.card_add, Multiset.card_range] at hc

/-- The producer's chunk is in nobody else's hands. -/
theorem Core.chunk_apart {s : State} (h : Core s) {c : Nat} (hc : hand s = {c}) :
    (∀ it ∈ s.q.items wqSlots, it.buf ≠ c) ∧ c ∉ s.writer.held := by
  have hnd : (owned s).Nodup := h.owned_eq ▸ Multiset.nodup_range wqSlots
  have hc' : c ∈ hand s := hc ▸ Multiset.mem_singleton_self c
  refine ⟨pool_apart hnd (Multiset.mem_add.mpr (Or.inl hc')), fun hw => ?_⟩
  obtain ⟨-, -, hdis⟩ := Multiset.nodup_add.mp (pool_hands hnd)
  exact Multiset.disjoint_left.mp hdis hc' hw

/-- A producer that holds nothing and finds nothing free leaves all
buffers to the queue and the writer. -/
theorem Core.all_out {s : State} (h : Core s) (hf : s.freeq.count = 0) (hh : hand s = 0) :
    0 < s.q.count + s.writer.held.card := by
  have hcount := h.count_eq
  rw [hf, hh, Multiset.card_zero, wqSlots] at hcount
  omega

/-- A step that moves no buffer. -/
theorem Core.same {s s' : State} (h : Core s) (hq : s'.q = s.q) (hf : s'.freeq = s.freeq)
    (hh : hand s' = hand s) (hw : s'.writer.held = s.writer.held) : Core s' := by
  refine ⟨hq ▸ h.ring, ?_⟩
  rw [← h.owned_eq, owned, owned, hq, hf, hh, hw]

/-- A step of the producer that moves no buffer and does not sleep. -/
theorem Inv.awake {s s' : State} (h : Inv s) (hq : s'.q = s.q) (hf : s'.freeq = s.freeq)
    (hh : hand s' = hand s) (hw : s'.writer = s.writer) (hs : s'.stop = s.stop)
    (ha : s'.asleep = none) : Inv s' := by
  refine ⟨h.toCore.same hq hf hh (by rw [hw]), by simp [ha], by simp [ha], ?_⟩
  rw [hw, hs, hq]
  exact h.writer_asleep

theorem inv_pcapngOpen (calls : List Call) : Inv (pcapngOpen calls) where
  ring := ⟨Nat.zero_le _, Nat.succ_pos 31, rfl⟩
  owned_eq := by
    simp [owned, pool, Multiset.range, pcapngOpen, Stack.items, RingBuf.items, hand, Writer.held]
  nonfull := nofun
  freecv := nofun
  writer_asleep := nofun

/-! ## Every step keeps it -/

theorem Inv.wait {s : State} (h : Inv s) (hout : 0 < s.q.count + s.writer.held.card) :
    Inv { s with asleep := some .freecv } :=
  ⟨h.toCore.same rfl rfl rfl rfl, nofun, fun _ => hout, h.writer_asleep⟩

/-- A free buffer becomes the current chunk. -/
theorem Inv.gotChunk {s s' : State} (h : Inv s) (hh : hand s = 0) (hf : 0 < s.freeq.count)
    (hq : s'.q = s.q) (hfree : s'.freeq = s.freeq.pop) (hh' : hand s' = {s.freeq.top})
    (hw : s'.writer = s.writer) (hs : s'.stop = s.stop) (ha : s'.asleep = none) : Inv s' := by
  refine ⟨⟨hq ▸ h.ring, ?_⟩, by simp [ha], by simp [ha], ?_⟩
  · rw [← h.owned_eq, owned, owned, hh, zero_add, ← pool_take hf, hq, hfree, hh', hw, add_comm]
  · rw [hw, hs, hq]
    exact h.writer_asleep

theorem Inv.queueChunk {s : State} (h : Inv s) {c : Nat} (hr : s.refill = false)
    (hc : s.chunk = some c) (ha : s.asleep = none) (k : List Op) :
    Inv (signalNonempty
      { s with q := s.q.push wqSlots ⟨c, s.chunkLen⟩, refill := true, todo := k }) := by
  have hhand : hand s = {c} := hand_some hr hc
  have hcount := h.count_eq
  rw [hhand, Multiset.card_singleton] at hcount
  have hlt : s.q.count < wqSlots := by omega
  obtain ⟨w, he, hw, hheld⟩ := signalNonempty_held
    { s with q := s.q.push wqSlots ⟨c, s.chunkLen⟩, refill := true, todo := k }
  rw [he]
  refine ⟨⟨h.ring.push hlt _, ?_⟩, by simp [ha], by simp [ha], fun hx => absurd hx hw⟩
  rw [← h.owned_eq, owned, owned, hhand, hheld, pool_enqueue h.ring hlt, add_comm {c} s.writer.held]
  show pool _ _ _ _ (0 + s.writer.held + {c}) = _
  rw [zero_add]

theorem Inv.takeItem {s : State} (h : Inv s) (hw : s.writer = .acquire) (hq : 0 < s.q.count) :
    Inv (signal .nonfull { s with q := s.q.pop wqSlots, writer := .write s.q.front 0 }) := by
  have hheld : s.writer.held = 0 := by rw [hw]; rfl
  obtain ⟨a, he, -, hcase⟩ := signal_eq .nonfull
    { s with q := s.q.pop wqSlots, writer := .write s.q.front 0 }
  rw [he]
  refine ⟨⟨h.ring.pop hq, ?_⟩, ?_, fun _ => ?_, nofun⟩
  · rw [← h.owned_eq, owned, owned, hheld, add_zero, ← pool_dequeue h.ring hq]
    rfl
  · rcases hcase with rfl | rfl
    · exact h.nonfull
    · exact nofun
  · exact Nat.lt_of_lt_of_le Nat.zero_lt_one (Nat.le_add_left 1 _)

theorem Inv.giveBack {s : State} (h : Inv s) {b : Nat} (hw : s.writer = .release b) :
    Inv (signal .freecv { s with freeq := s.freeq.push b, writer := .acquire }) := by
  have hheld : s.writer.held = {b} := by rw [hw]; rfl
  obtain ⟨a, he, ha, hcase⟩ := signal_eq .freecv
    { s with freeq := s.freeq.push b, writer := .acquire }
  rw [he]
  refine ⟨⟨h.ring, ?_⟩, ?_, fun hx => absurd hx ha, nofun⟩
  · rw [← h.owned_eq, owned, owned, hheld]
    show pool _ _ (s.freeq.push b) s.q (hand s + 0) = _
    rw [pool_give, add_zero]
  · rcases hcase with rfl | rfl
    · exact h.nonfull
    · exact nofun

theorem Inv.signalNonempty {s : State} (h : Core s) (hn : s.asleep ≠ some .nonfull)
    (hf : s.asleep = some .freecv → 0 < s.q.count + s.writer.held.card) :
    Inv (signalNonempty s) := by
  obtain ⟨w, he, hw, hheld⟩ := signalNonempty_held s
  rw [he]
  refine ⟨h.same rfl rfl rfl hheld, hn, ?_, fun hx => absurd hx hw⟩
  rw [hheld]
  exact hf

theorem Inv.move {s s' : State} {a : Action} (h : Inv s) (hm : Move a s s') : Inv s' := by
  cases hm with
  | refillWait ha hr hf he => exact h.wait (h.all_out hf (hand_refill hr))
  | refillNull ha hr he => exact h.awake rfl rfl (hand_refill hr).symm rfl rfl ha
  | refillGot ha hr hf => exact h.gotChunk (hand_refill hr) hf rfl rfl rfl rfl rfl ha
  | sinkSkip ha hr ht hg => exact h.awake rfl rfl rfl rfl rfl ha
  | sinkEnter ha hr ht => exact h.awake rfl rfl rfl rfl rfl ha
  | copyDone ha hr ht => exact h.awake rfl rfl rfl rfl rfl ha
  | copyWait ha hr ht hc hf he => exact h.wait (h.all_out hf (hand_none hc))
  | copyNull ha hr ht hc he => exact h.awake rfl rfl rfl rfl rfl ha
  | copyGot ha hr ht hc hf =>
      exact h.gotChunk (hand_none hc) hf rfl rfl (hand_some hr rfl) rfl rfl ha
  | copyPart ha hr ht hd hc hn hfl => exact h.awake rfl rfl rfl rfl rfl ha
  | liveFlush ha hr ht hfl => exact h.awake rfl rfl rfl rfl rfl ha
  | flushEmpty ha hr ht hc => exact h.awake rfl rfl rfl rfl rfl ha
  | flushWait ha hr ht hc hq =>
      -- with a chunk in hand the ring cannot hold all the buffers
      have hcount := h.count_eq
      rw [hand_some hr hc, Multiset.card_singleton, hq] at hcount
      omega
  | flushDiscard ha hr ht hc he => exact h.awake rfl rfl rfl rfl rfl ha
  | flushQueue ha hr ht hc hl => exact h.queueChunk hr hc ha _
  | drainWait ha hr ht hq => exact h.wait (Nat.add_pos_left (Nat.pos_of_ne_zero hq) _)
  | drainDone ha hr ht => exact h.awake rfl rfl rfl rfl rfl ha
  | stop ha hr ht => exact Inv.signalNonempty (h.toCore.same rfl rfl rfl rfl) h.nonfull h.freecv
  | join ha hr ht hw => exact h.awake rfl rfl rfl rfl rfl ha
  | call ha hr ht hc hs =>
      obtain ⟨b, p, cap, todo, rfl⟩ := call_eq hs
      exact h.awake rfl rfl rfl rfl rfl ha
  | sleep hw hq hs =>
      refine ⟨h.toCore.same rfl rfl rfl (by rw [hw]; rfl), h.nonfull, fun hx => ?_,
        fun _ => ⟨hs, hq⟩⟩
      have hpos := h.freecv hx
      rw [hw] at hpos
      exact hpos
  | exit hw hq hs =>
      refine ⟨h.toCore.same rfl rfl rfl (by rw [hw]; rfl), h.nonfull, fun hx => ?_, nofun⟩
      have hpos := h.freecv hx
      rw [hw] at hpos
      exact hpos
  | take hw hq => exact h.takeItem hw hq
  | written hw hoff =>
      refine ⟨h.toCore.same rfl rfl rfl (by rw [hw]; rfl), h.nonfull, fun hx => ?_, nofun⟩
      exact Nat.lt_of_lt_of_le Nat.zero_lt_one (Nat.le_add_left 1 _)
  | fail hw =>
      refine ⟨h.toCore.same rfl rfl rfl (by rw [hw]; rfl), h.nonfull, fun hx => ?_, nofun⟩
      exact Nat.lt_of_lt_of_le Nat.zero_lt_one (Nat.le_add_left 1 _)
  | accept hw hn hpos =>
      refine ⟨h.toCore.same rfl rfl rfl (by rw [hw]; rfl), h.nonfull, fun hx => ?_, nofun⟩
      exact Nat.lt_of_lt_of_le Nat.zero_lt_one (Nat.le_add_left 1 _)
  | giveBack hw => exact h.giveBack hw
  | wakeProducer => exact ⟨h.toCore.same rfl rfl rfl rfl, nofun, nofun, h.writer_asleep⟩
  | wakeWriter => exact Inv.signalNonempty h.toCore h.nonfull h.freecv

theorem Inv.run {s s' : State} (h : Inv s) (hrun : Relation.ReflTransGen Step s s') : Inv s' :=
  run_keeps (fun _ _ ⟨_, hs⟩ h => h.move (move_of_step hs)) hrun h

/-- **The threads never wait for each other.** -/
theorem Inv.not_both_asleep {s : State} (h : Inv s) :
    ¬ (s.asleep ≠ none ∧ s.writer = .asleep) := by
  rintro ⟨ha, hw⟩
  obtain ⟨-, hq⟩ := h.writer_asleep hw
  cases hs : s.asleep with
  | none => exact ha hs
  | some c =>
      cases c with
      | nonfull => exact h.nonfull hs
      | freecv =>
          have hpos := h.freecv hs
          rw [hw, hq] at hpos
          exact absurd hpos (Nat.lt_irrefl 0)

end UsbSniffer.Pcapng
